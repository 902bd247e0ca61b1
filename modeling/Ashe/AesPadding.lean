import Ashe.AesBounds

namespace Ashe.AesPadding

open AesCipher AesCbc AesBlocks AesRoundTrip AesBounds CbcChaining

variable {key iv : List UInt8}

def blocks (text : List UInt8) : List State :=
  (List.range (text.length / 16)).filterMap (fun i => State.load text (16 * i))

/-- The ciphertext with all its blocks deciphered and unchained. -/
def cbcDecrypted (key iv cipher : List UInt8) : Option (List UInt8) := do
  let k ← State.load key 0
  let v ← State.load iv 0
  some ((decrypt (invCipher · (keyExpansion k)) v (blocks cipher)).flatMap State.bytes)

/-- The buffer ends in n bytes that are all n. -/
def Padded (n : Nat) (buffer : List UInt8) : Prop :=
  1 ≤ n ∧ n ≤ 16 ∧ ∃ data, buffer = data ++ List.replicate n (UInt8.ofNat n)

/-- The decryption answers true for a padded buffer alone, and then with what
stands before the padding. -/
def RejectsUnpadded (buffer : List UInt8) (result : Option (Bool × List UInt8)) : Prop :=
  ∃ ok plain, result = some (ok, plain) ∧ (ok = true ↔ ∃ n, Padded n buffer) ∧
    ∀ n, Padded n buffer → plain = buffer.take (buffer.length - n)

theorem load_drop (s : State) (rest : List UInt8) (i : Nat) :
    State.load (State.bytes s ++ rest) (i + 16) = State.load rest i := by
  have hcolumn : ∀ j, Column.load (State.bytes s ++ rest) (j + 16) = Column.load rest j := by
    intro j
    have hget : ∀ k, (State.bytes s ++ rest)[16 + k]? = rest[k]? := by
      intro k
      rw [← bytes_length s, List.getElem?_append_right (Nat.le_add_right _ k),
        Nat.add_sub_cancel_left]
    rw [Column.load, Column.load, ← hget j, ← hget (j + 1), ← hget (j + 2), ← hget (j + 3)]
    simp only [Nat.add_assoc, Nat.add_comm, Nat.add_left_comm]
  have hshift : ∀ d, i + 16 + d = i + d + 16 := fun d => by omega
  rw [State.load, State.load, hshift, hshift, hshift, hcolumn, hcolumn, hcolumn, hcolumn]

theorem blocks_bytes (bs : List State) : blocks (bs.flatMap State.bytes) = bs := by
  induction bs with
  | nil => rfl
  | cons s bs ih =>
      have hfirst := load_bytes [] (bs.flatMap State.bytes) s
      have hnext : ∀ i, State.load (State.bytes s ++ bs.flatMap State.bytes) (16 * (i + 1)) =
          State.load (bs.flatMap State.bytes) (16 * i) := fun i => load_drop s _ (16 * i)
      rw [blocks, flatMap_bytes_length, Nat.mul_div_cancel_left _ (by omega)] at ih ⊢
      rw [List.length_cons, List.range_succ_eq_map, List.flatMap_cons, List.filterMap_cons,
        Nat.mul_zero, List.filterMap_map]
      rw [List.nil_append, List.length_nil] at hfirst
      rw [hfirst]
      simp only [Function.comp_def, Nat.succ_eq_add_one, hnext, ih]

/-- The loop deciphers the blocks below the length that is left in 32 bits, and
what is behind them stays as it is. -/
theorem decryptedBuffer_blocks (hk : key.length = 16) (hiv : iv.length = 16)
    {cipher : List UInt8} (h : cipher.length % 16 = 0) :
    ∃ buffer, cbcDecrypted key iv cipher = some buffer ∧ buffer.length = cipher.length ∧
      decryptedBuffer key iv cipher = some (buffer.take (cipher.length % 2 ^ 32) ++
        cipher.drop (cipher.length % 2 ^ 32)) := by
  obtain ⟨k, -, hk'⟩ := exists_state hk
  obtain ⟨v, -, hv'⟩ := exists_state hiv
  generalize hl : cipher.length % 2 ^ 32 = length
  have htake : (cipher.take length).length = 16 * (length / 16) := by
    rw [List.length_take]
    omega
  have hdrop : (cipher.drop length).length = 16 * ((cipher.length - length) / 16) := by
    rw [List.length_drop]
    omega
  obtain ⟨bs, hn, hb⟩ := exists_blocks htake
  obtain ⟨ds, -, hd⟩ := exists_blocks hdrop
  have hcipher : (bs ++ ds).flatMap State.bytes = cipher := by
    rw [List.flatMap_append, hb, hd, List.take_append_drop]
  have hcov : Covers length 0 bs.length := by
    rw [Covers, hn]
    omega
  obtain ⟨ctx', hloop⟩ := cbcDecryptLoop_blocks (aesInitCtxIv k v) bs [] (cipher.drop length) hcov
  rw [List.nil_append, List.nil_append, List.length_nil, hb, List.take_append_drop] at hloop
  have hfront : ((decrypt (invCipher · (keyExpansion k)) v bs).flatMap State.bytes).length =
      length := by
    rw [flatMap_bytes_length, decrypt_length, hn]
    omega
  obtain ⟨v', happend⟩ := decrypt_append (invCipher · (keyExpansion k)) v bs ds
  refine ⟨(decrypt (invCipher · (keyExpansion k)) v (bs ++ ds)).flatMap State.bytes, ?_, ?_, ?_⟩
  · simp only [cbcDecrypted, hk', hv', Option.bind_eq_bind, Option.bind_some]
    rw [← hcipher, blocks_bytes]
  · rw [flatMap_bytes_length, decrypt_length, ← flatMap_bytes_length, hcipher]
  · rw [happend, List.flatMap_append, ← hfront, List.take_left, hfront]
    simp only [decryptedBuffer, hk', hv', aesCBCDecryptBuffer, UInt32.toNat_ofNat', hl, hloop,
      Option.bind_eq_bind, Option.bind_some]
    rfl

theorem dataLength_padded {buffer : List UInt8} (h : buffer.length % 16 = 0) {n : Nat}
    (hp : Padded n buffer) :
    dataLength .PKCS7 buffer buffer.length = some (buffer.length - n) := by
  obtain ⟨hn, hle, data, rfl⟩ := hp
  rw [List.length_append, List.length_replicate] at h ⊢
  rw [Nat.add_sub_cancel]
  exact pkcs7PaddingDataLength_padded data hn hle h

theorem paddingLoop_found {buffer : List UInt8} {c : UInt8} {turns n m : Nat}
    (h : paddingLoop buffer c turns n = some m) (hm : m ≠ 0) :
    m + turns = n ∧ ∀ i, m ≤ i → i < n → buffer[i]? = some c := by
  induction turns generalizing n with
  | zero =>
      obtain rfl := Option.some.inj h
      exact ⟨rfl, fun i hle hlt => absurd hlt (Nat.not_lt.mpr hle)⟩
  | succ turns ih =>
      rw [paddingLoop, Option.bind_eq_bind, Option.bind_eq_some_iff] at h
      obtain ⟨b, hb, h⟩ := h
      split at h
      next => exact absurd (Option.some.inj h).symm hm
      next hc =>
        obtain ⟨hsum, hbytes⟩ := ih h
        refine ⟨by omega, fun i hle hlt => ?_⟩
        by_cases hi : i = n - 1
        · rw [hi, hb, not_not.mp hc]
        · exact hbytes i hle (by omega)

theorem padded_of_dataLength {buffer : List UInt8} {m : Nat}
    (h : dataLength .PKCS7 buffer buffer.length = some m) (hm : m ≠ 0) :
    Padded (buffer.length - m) buffer := by
  rw [dataLength, pkcs7PaddingDataLength] at h
  split at h
  next => exact absurd (Option.some.inj h).symm hm
  next =>
    rw [Option.bind_eq_bind, Option.bind_eq_some_iff] at h
    obtain ⟨padding_value, hlast, h⟩ := h
    split at h
    next => exact absurd (Option.some.inj h).symm hm
    next hvalue =>
      split at h
      next => exact absurd (Option.some.inj h).symm hm
      next hsize =>
        obtain ⟨hsum, hbytes⟩ := paddingLoop_found h hm
        obtain ⟨hge, hle⟩ := not_or.mp hvalue
        have h1 : 1 ≤ padding_value.toNat := UInt8.le_iff_toNat_le.mp (UInt8.not_lt.mp hge)
        have h16 : padding_value.toNat ≤ 16 := UInt8.le_iff_toNat_le.mp (UInt8.not_lt.mp hle)
        have hn : buffer.length - m = padding_value.toNat := by omega
        rw [hn]
        refine ⟨h1, h16, buffer.take m, ?_⟩
        rw [UInt8.ofNat_toNat]
        refine (List.take_append_drop m buffer).symm.trans ?_
        congr 1
        refine List.eq_replicate_iff.mpr ⟨by rw [List.length_drop, hn], fun b hb => ?_⟩
        obtain ⟨i, hi, rfl⟩ := List.getElem_of_mem hb
        rw [List.length_drop] at hi
        rw [List.getElem_drop]
        apply Option.some.inj
        rw [← List.getElem?_eq_getElem]
        by_cases hend : m + i = buffer.length - 1
        · rw [hend, hlast]
        · exact hbytes (m + i) (Nat.le_add_right m i) (by omega)

theorem Padded.le_length {buffer : List UInt8} {n : Nat} (h : Padded n buffer) :
    n ≤ buffer.length := by
  obtain ⟨-, -, data, rfl⟩ := h
  rw [List.length_append, List.length_replicate]
  exact Nat.le_add_left n _

theorem Padded.eq_take {buffer : List UInt8} {n : Nat} (h : Padded n buffer) :
    buffer = buffer.take (buffer.length - n) ++ List.replicate n (UInt8.ofNat n) := by
  obtain ⟨-, -, data, rfl⟩ := h
  rw [List.length_append, List.length_replicate, Nat.add_sub_cancel, List.take_left]

/-- The answer for one buffer is right for another of its size only where they
are the same: more than a block of the one is what the other begins with. -/
theorem eq_of_rejectsUnpadded {buffer found : List UInt8} {m : Nat}
    (hlen : found.length = buffer.length) (h : buffer.length % 16 = 0)
    (hsame : buffer.length = 16 → found = buffer)
    (hm : dataLength .PKCS7 found found.length = some m) (hle : m ≤ found.length)
    (hr : RejectsUnpadded buffer (some (true, found.take m))) :
    (∃ n, Padded n buffer) ∧ found = buffer := by
  obtain ⟨ok, plain, hresult, hok, hplain⟩ := hr
  obtain ⟨rfl, rfl⟩ := Prod.mk.inj (Option.some.inj hresult)
  obtain ⟨n, hp⟩ := hok.mp rfl
  refine ⟨⟨n, hp⟩, ?_⟩
  have htake := hplain n hp
  have hn : m = buffer.length - n := by
    have hlength := congrArg List.length htake
    rw [List.length_take, List.length_take] at hlength
    omega
  have hsmall := hp.le_length
  by_cases hzero : m = 0
  · have hblock := hp.2.1
    have hpos := hp.1
    exact hsame (by omega)
  · have hfound := padded_of_dataLength hm hzero
    have hrest : found.length - m = n := by omega
    rw [hrest] at hfound
    calc found = found.take (found.length - n) ++ List.replicate n (UInt8.ofNat n) :=
          hfound.eq_take
      _ = buffer.take (buffer.length - n) ++ List.replicate n (UInt8.ofNat n) := by
          rw [← htake, hlen, hn]
      _ = buffer := hp.eq_take.symm

/-- The answer is true whatever the padding; it is right for a padded buffer
whose bytes behind the length in 32 bits are those of the ciphertext, and for no
other. -/
theorem decrypt_rejectsUnpadded_iff (hk : key.length = 16) (hiv : iv.length = 16)
    {cipher : List UInt8} (hc : cipher ≠ []) (h : cipher.length % 16 = 0) (plain : List UInt8) :
    ∃ buffer, cbcDecrypted key iv cipher = some buffer ∧
      (RejectsUnpadded buffer (aes128CBCDecrypt key iv .PKCS7 cipher plain) ↔
        (∃ n, Padded n buffer) ∧ buffer.drop (cipher.length % 2 ^ 32) =
          cipher.drop (cipher.length % 2 ^ 32)) := by
  obtain ⟨buffer, hcbc, hlen, hfound⟩ := decryptedBuffer_blocks hk hiv h
  refine ⟨buffer, hcbc, ?_⟩
  generalize hf : buffer.take (cipher.length % 2 ^ 32) ++
    cipher.drop (cipher.length % 2 ^ 32) = found at hfound
  have hfl := decryptedBuffer_length hfound
  have hfb : found = buffer ↔ buffer.drop (cipher.length % 2 ^ 32) =
      cipher.drop (cipher.length % 2 ^ 32) := by
    rw [← hf]
    constructor
    · intro heq
      have hwhole := heq.trans (List.take_append_drop (cipher.length % 2 ^ 32) buffer).symm
      exact (List.append_cancel_left hwhole).symm
    · intro heq
      rw [← heq, List.take_append_drop]
  obtain ⟨m, hm, hle⟩ := dataLength_runs .PKCS7 found
  rw [aes128CBCDecrypt_eq hk hiv hc, hfound, Option.bind_some, ← hfl, hm, Option.map_some, hfl,
    ← hfb]
  constructor
  · refine eq_of_rejectsUnpadded (hfl.trans hlen.symm) (by rw [hlen, h]) ?_ hm hle
    intro hblock
    rw [← hf, ← hlen, hblock, List.take_of_length_le (by omega), List.drop_of_length_le
      (by omega), List.append_nil]
  · rintro ⟨hpadded, rfl⟩
    refine ⟨true, _, rfl, ⟨fun _ => hpadded, fun _ => rfl⟩, ?_⟩
    intro n hp
    obtain rfl := Option.some.inj (hm.symm.trans (dataLength_padded (by rw [hlen, h]) hp))
    rfl

theorem decrypt_rejectsUnpadded_iff_block : ∃ buffer,
    cbcDecrypted (List.replicate 16 7) (List.replicate 16 9) (List.replicate 16 1) = some buffer ∧
      (RejectsUnpadded buffer (aes128CBCDecrypt (List.replicate 16 7) (List.replicate 16 9) .PKCS7
        (List.replicate 16 1) []) ↔
        (∃ n, Padded n buffer) ∧
          buffer.drop ((List.replicate 16 (1 : UInt8)).length % 2 ^ 32) =
            (List.replicate 16 (1 : UInt8)).drop
              ((List.replicate 16 (1 : UInt8)).length % 2 ^ 32)) :=
  decrypt_rejectsUnpadded_iff (by decide) (by decide) (by decide) (by decide) []

/-- A block of zeros under a key of zeros ends in a byte that is no padding, and
the answer is true all the same. -/
theorem decrypt_accepts_unpadded : ¬ ∀ key iv, key.length = 16 → iv.length = 16 →
    ∀ cipher, cipher ≠ [] → cipher.length % 16 = 0 → ∀ plain buffer,
      cbcDecrypted key iv cipher = some buffer →
      RejectsUnpadded buffer (aes128CBCDecrypt key iv .PKCS7 cipher plain) := by
  intro h
  obtain ⟨buffer, hbuffer⟩ : ∃ buffer, cbcDecrypted (List.replicate 16 0) (List.replicate 16 0)
      (List.replicate 16 0) = some buffer := Option.isSome_iff_exists.mp (by decide +kernel)
  have hrun : (cbcDecrypted (List.replicate 16 0) (List.replicate 16 0)
      (List.replicate 16 0)).map List.getLast? = some (some 58) := by decide +kernel
  have htrue : aes128CBCDecrypt (List.replicate 16 0) (List.replicate 16 0) .PKCS7
      (List.replicate 16 0) [] = some (true, []) := by decide +kernel
  obtain ⟨ok, plain, hresult, hok, -⟩ := h _ _ (by decide) (by decide) (List.replicate 16 0)
    (by decide) (by decide) [] buffer hbuffer
  obtain ⟨rfl, -⟩ := Prod.mk.inj (Option.some.inj (htrue.symm.trans hresult))
  obtain ⟨n, hn, hle, data, rfl⟩ := hok.mp rfl
  obtain ⟨m, rfl⟩ := Nat.exists_eq_succ_of_ne_zero (Nat.ne_of_gt hn)
  rw [hbuffer, List.replicate_succ', ← List.append_assoc, Option.map_some,
    List.getLast?_concat] at hrun
  have hbyte : UInt8.ofNat (m + 1) = 58 := Option.some.inj (Option.some.inj hrun)
  have hnat := congrArg UInt8.toNat hbyte
  rw [UInt8.toNat_ofNat'] at hnat
  have h58 : (58 : UInt8).toNat = 58 := rfl
  omega

end Ashe.AesPadding
