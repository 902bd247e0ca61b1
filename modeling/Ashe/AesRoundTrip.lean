import Ashe.AesBlocks
import Mathlib.Order.Basic

namespace Ashe.AesRoundTrip

open AesCipher AesInverse AesCbc AesBlocks Buffers CbcChaining

variable {key iv plain : List UInt8}

theorem bufferSize_covers (size : Nat) : Covers size 0 (bufferSize size / 16) := by
  rw [bufferSize, Covers]
  split <;> omega

theorem bufferSize_div (size : Nat) : 16 * (bufferSize size / 16) = bufferSize size := by
  rw [bufferSize]
  split <;> omega

theorem le_bufferSize (size : Nat) : size ≤ bufferSize size := by
  rw [bufferSize]
  split <;> omega

theorem bufferSize_aligned {size : Nat} (h : size % 16 = 0) : bufferSize size = size := by
  rw [bufferSize, if_neg (not_not.mpr h)]

def filler (paddingMode : AESPaddingMode) (size : Nat) : List UInt8 :=
  let n := bufferSize size - size
  List.replicate n (match paddingMode with
    | .PKCS7 => UInt8.ofNat n
    | .None => 0)

theorem filler_length (paddingMode : AESPaddingMode) (size : Nat) :
    (filler paddingMode size).length = bufferSize size - size := List.length_replicate

theorem filled_length (paddingMode : AESPaddingMode) (plain : List UInt8) :
    (plain ++ filler paddingMode plain.length).length = bufferSize plain.length := by
  rw [List.length_append, filler_length]
  exact Nat.add_sub_cancel' (le_bufferSize _)

theorem copy_zeros (plain : List UInt8) :
    copy (List.replicate (bufferSize plain.length) 0) 0 plain =
      some (plain ++ filler .None plain.length) := by
  have hsplit : List.replicate (bufferSize plain.length) (0 : UInt8) =
      [] ++ (List.replicate plain.length 0 ++ filler .None plain.length) := by
    rw [List.nil_append, filler, ← List.replicate_add, Nat.add_sub_cancel' (le_bufferSize _)]
  rw [hsplit]
  exact copy_middle [] _ _ rfl List.length_replicate.symm

theorem pad_zeros (paddingMode : AESPaddingMode) (plain : List UInt8) :
    padBuffer paddingMode (plain ++ filler .None plain.length) plain.length
      (bufferSize plain.length) = some (plain ++ filler paddingMode plain.length) := by
  cases paddingMode with
  | None => rfl
  | PKCS7 =>
      by_cases h : plain.length % 16 = 0
      · -- a whole block of padding does not fit
        simp [padBuffer, pkcs7PaddingPadBuffer, filler, bufferSize_aligned h, h]
      · have hn : bufferSize plain.length - plain.length = 16 - plain.length % 16 := by
          rw [bufferSize, if_pos h]
          omega
        have hb : (UInt8.ofNat (16 - plain.length % 16)).toNat =
            (filler .None plain.length).length := by
          rw [filler_length, hn, UInt8.toNat_ofNat']
          omega
        have hfits : ¬ plain.length + (filler .None plain.length).length >
            bufferSize plain.length := by
          rw [filler_length]
          omega
        have hstore := foldlM_store plain (filler .None plain.length) []
          (UInt8.ofNat (16 - plain.length % 16))
        rw [List.append_nil, List.append_nil] at hstore
        simp only [padBuffer, pkcs7PaddingPadBuffer, UInt8.reduceToNat, hb, if_neg hfits, hstore]
        rw [filler_length, filler, hn]
        rfl

/-- Decryption gives back the filled buffer, cut to the length that its padding
mode reads off. -/
theorem decrypt_encrypted (hk : key.length = 16) (hiv : iv.length = 16) (hp : plain ≠ [])
    (hl : plain.length < 2 ^ 32 - 16) (paddingMode : AESPaddingMode) (out : List UInt8) :
    ∃ c, aes128CBCEncrypt key iv paddingMode plain out = some (true, c) ∧
      ∀ unpadding out', aes128CBCDecrypt key iv unpadding c out' =
        (dataLength unpadding (plain ++ filler paddingMode plain.length)
          (bufferSize plain.length)).map
            fun n => (true, (plain ++ filler paddingMode plain.length).take n) := by
  obtain ⟨k, -, hk'⟩ := exists_state hk
  obtain ⟨v, -, hv'⟩ := exists_state hiv
  obtain ⟨ctx, hctx⟩ : ∃ ctx, ctx = aesInitCtxIv k v := ⟨_, rfl⟩
  have hsize := filled_length paddingMode plain
  rw [← bufferSize_div] at hsize
  obtain ⟨blocks, hn, hb⟩ := exists_blocks hsize
  have hsmall : bufferSize plain.length < 2 ^ 32 := by
    rw [bufferSize]
    split <;> omega
  have hle := le_bufferSize plain.length
  have hpos := List.length_pos_of_ne_nil hp
  obtain ⟨ctx1, henc⟩ := aesCBCEncryptBuffer_blocks ctx blocks
    (hn ▸ bufferSize_covers plain.length) (by omega)
  generalize hcs : encrypt (cipher · ctx.RoundKey) ctx.Iv blocks = chained at henc
  have hcn : chained.length = bufferSize plain.length / 16 := by
    rw [← hcs, encrypt_length, hn]
  have hcl : (chained.flatMap State.bytes).length = bufferSize plain.length := by
    rw [flatMap_bytes_length, hcn, bufferSize_div]
  have hcov : Covers (bufferSize plain.length) 0 chained.length := by
    rw [hcn, Covers, bufferSize_div]
    omega
  obtain ⟨ctx2, hdec⟩ := aesCBCDecryptBuffer_blocks ctx chained hcov hsmall
  rw [← hcs, decrypt_encrypt State.xor_xor (fun s => invCipher_cipher s ctx.RoundKey), hcs, hb]
    at hdec
  refine ⟨chained.flatMap State.bytes, ?_, fun unpadding out' => ?_⟩
  · have hpad := pad_zeros paddingMode plain
    rw [aes128CBCEncrypt, if_neg (by simp [hk, hiv, hp, AES_KEYLEN])]
    simp only [hk', hv', Option.bind_eq_bind, Option.bind_some, copy_zeros, hpad, ← hctx]
    rw [← hb, henc]
    rfl
  · have hne : chained.flatMap State.bytes ≠ [] := by
      apply List.ne_nil_of_length_pos
      omega
    rw [aes128CBCDecrypt, if_neg (by simp only [hk, hiv, hne, AES_KEYLEN]; decide)]
    simp only [hk', hv', Option.bind_eq_bind, Option.bind_some, ← hctx, hcl, hdec]
    rw [Option.map_eq_bind]
    rfl

theorem zero_padding_round_trip (hk : key.length = 16) (hiv : iv.length = 16) (hp : plain ≠ [])
    (hl : plain.length < 2 ^ 32 - 16) (out out' : List UInt8) :
    ∃ c, aes128CBCEncrypt key iv .None plain out = some (true, c) ∧
      aes128CBCDecrypt key iv .None c out' =
        some (true, plain ++ List.replicate ((16 - plain.length % 16) % 16) 0) := by
  obtain ⟨c, henc, hdec⟩ := decrypt_encrypted hk hiv hp hl .None out
  have hn : bufferSize plain.length - plain.length = (16 - plain.length % 16) % 16 := by
    rw [bufferSize]
    split <;> omega
  refine ⟨c, henc, ?_⟩
  rw [hdec, dataLength, Option.map_some, ← filled_length .None, List.take_length, filler, hn]

theorem zero_padding_round_trip_short :
    ∃ c, aes128CBCEncrypt (List.replicate 16 7) (List.replicate 16 9) .None [1, 2, 3] [] =
        some (true, c) ∧
      aes128CBCDecrypt (List.replicate 16 7) (List.replicate 16 9) .None c [] =
        some (true, [1, 2, 3] ++ List.replicate 13 0) :=
  zero_padding_round_trip (by decide) (by decide) (by decide) (by decide) [] []

theorem paddingLoop_replicate (before after : List UInt8) (c : UInt8) {turns n : Nat}
    (h : turns ≤ n) :
    paddingLoop (before ++ List.replicate n c ++ after) c turns (before.length + turns) =
      some before.length := by
  induction turns with
  | zero => rfl
  | succ turns ih =>
      have hc : (before ++ List.replicate n c ++ after)[before.length + (turns + 1) - 1]? =
          some c := by
        rw [Nat.add_succ_sub_one, List.append_assoc, List.getElem?_append_right (by omega),
          List.getElem?_append_left (by simp; omega), List.getElem?_replicate_of_lt (by omega)]
      rw [paddingLoop, hc, Option.bind_eq_bind, Option.bind_some, if_neg (not_not.mpr rfl)]
      exact ih (by omega)

theorem paddingLoop_le {buffer : List UInt8} {c : UInt8} {turns n m : Nat}
    (h : paddingLoop buffer c turns n = some m) : m ≤ n := by
  induction turns generalizing n with
  | zero => exact Nat.le_of_eq (Option.some.inj h).symm
  | succ turns ih =>
      rw [paddingLoop, Option.bind_eq_bind, Option.bind_eq_some_iff] at h
      obtain ⟨b, -, h⟩ := h
      split at h
      next => exact (Option.some.inj h).symm.trans_le (Nat.zero_le n)
      next => exact Nat.le_trans (ih h) (Nat.sub_le n 1)

theorem pkcs7PaddingDataLength_lt {buffer : List UInt8} {size m : Nat} (hs : 0 < size)
    (h : pkcs7PaddingDataLength buffer size 16 = some m) : m < size := by
  rw [pkcs7PaddingDataLength] at h
  split at h
  next => exact (Option.some.inj h).symm.trans_lt hs
  next =>
    rw [Option.bind_eq_bind, Option.bind_eq_some_iff] at h
    obtain ⟨padding_value, -, h⟩ := h
    split at h
    next => exact (Option.some.inj h).symm.trans_lt hs
    next =>
      split at h
      next => exact (Option.some.inj h).symm.trans_lt hs
      next => exact Nat.lt_of_le_of_lt (paddingLoop_le h) (Nat.sub_lt hs Nat.one_pos)

/-- A padding is read off with the length of what stands before it, a block
that is all padding included. -/
theorem pkcs7PaddingDataLength_padded (data : List UInt8) {n : Nat} (hn : 1 ≤ n) (hle : n ≤ 16)
    (h : (data.length + n) % 16 = 0) :
    pkcs7PaddingDataLength (data ++ List.replicate n (UInt8.ofNat n)) (data.length + n) 16 =
      some data.length := by
  obtain ⟨m, rfl⟩ := Nat.exists_eq_succ_of_ne_zero (Nat.ne_of_gt hn)
  have hb : (UInt8.ofNat (m + 1)).toNat = m + 1 := by
    rw [UInt8.toNat_ofNat']
    omega
  have hlast : (data ++ List.replicate (m + 1) (UInt8.ofNat (m + 1)))[data.length + m]? =
      some (UInt8.ofNat (m + 1)) := by
    rw [List.getElem?_append_right (by omega), List.getElem?_replicate_of_lt (by omega)]
  have h16 : (16 : UInt8).toNat = 16 := rfl
  have hloop := paddingLoop_replicate data [] (UInt8.ofNat (m + 1)) (Nat.le_succ m)
  rw [List.append_nil] at hloop
  rw [Nat.succ_eq_add_one, pkcs7PaddingDataLength, if_neg (by rw [h16]; omega),
    Nat.add_succ_sub_one, hlast]
  simp only [Option.bind_eq_bind, Option.bind_some]
  rw [if_neg, hb, Nat.add_sub_cancel]
  · split
    next hshort =>
      have hnone : data.length = 0 := by omega
      rw [hnone]
    next => exact hloop
  · rw [UInt8.lt_iff_toNat_lt, gt_iff_lt, UInt8.lt_iff_toNat_lt, hb]
    simp
    omega

theorem pkcs7PaddingDataLength_filled (h : plain.length % 16 ≠ 0) :
    pkcs7PaddingDataLength (plain ++ filler .PKCS7 plain.length) (bufferSize plain.length) 16 =
      some plain.length := by
  have hn : bufferSize plain.length = plain.length + (16 - plain.length % 16) := if_pos h
  have hf : filler .PKCS7 plain.length =
      List.replicate (16 - plain.length % 16) (UInt8.ofNat (16 - plain.length % 16)) := by
    rw [filler, hn, Nat.add_sub_cancel_left]
  rw [hf, hn]
  exact pkcs7PaddingDataLength_padded plain (by omega) (by omega) (by omega)

/-- A plaintext of whole blocks is stored with no padding, and never comes back
whole. -/
theorem aligned_not_restored (hp : plain ≠ []) (ha : plain.length % 16 = 0) :
    (dataLength .PKCS7 (plain ++ filler .PKCS7 plain.length) (bufferSize plain.length)).map
      (fun n => (true, (plain ++ filler .PKCS7 plain.length).take n)) ≠ some (true, plain) := by
  intro h
  obtain ⟨n, hn, h⟩ := Option.map_eq_some_iff.mp h
  rw [bufferSize_aligned ha] at hn
  have hlt := pkcs7PaddingDataLength_lt (List.length_pos_of_ne_nil hp) hn
  have hlen := congrArg List.length (Prod.mk.inj h).2
  rw [List.length_take, filled_length, bufferSize_aligned ha] at hlen
  omega

theorem pkcs7_round_trip_iff (hk : key.length = 16) (hiv : iv.length = 16) (hp : plain ≠ [])
    (hl : plain.length < 2 ^ 32 - 16) (out out' : List UInt8) :
    ∃ c, aes128CBCEncrypt key iv .PKCS7 plain out = some (true, c) ∧
      (aes128CBCDecrypt key iv .PKCS7 c out' = some (true, plain) ↔ plain.length % 16 ≠ 0) := by
  obtain ⟨c, henc, hdec⟩ := decrypt_encrypted hk hiv hp hl .PKCS7 out
  refine ⟨c, henc, ?_⟩
  rw [hdec]
  constructor
  · exact fun h ha => aligned_not_restored hp ha h
  · intro ha
    rw [dataLength, pkcs7PaddingDataLength_filled ha, Option.map_some, List.take_left]

theorem pkcs7_round_trip_iff_short :
    ∃ c, aes128CBCEncrypt (List.replicate 16 7) (List.replicate 16 9) .PKCS7 [1, 2, 3] [] =
        some (true, c) ∧
      (aes128CBCDecrypt (List.replicate 16 7) (List.replicate 16 9) .PKCS7 c [] =
        some (true, [1, 2, 3]) ↔ [(1 : UInt8), 2, 3].length % 16 ≠ 0) :=
  pkcs7_round_trip_iff (by decide) (by decide) (by decide) (by decide) [] []

/-- Sixteen bytes are encrypted, and decrypted to something else. -/
theorem pkcs7_block_lost :
    ∃ c, aes128CBCEncrypt (List.replicate 16 7) (List.replicate 16 9) .PKCS7 (List.replicate 16 1)
        [] = some (true, c) ∧
      aes128CBCDecrypt (List.replicate 16 7) (List.replicate 16 9) .PKCS7 c [] ≠
        some (true, List.replicate 16 1) := by
  obtain ⟨c, henc, hdec⟩ := @decrypt_encrypted (List.replicate 16 7) (List.replicate 16 9)
    (List.replicate 16 1) (by decide) (by decide) (by decide) (by decide) .PKCS7 []
  refine ⟨c, henc, ?_⟩
  rw [hdec]
  exact aligned_not_restored (by decide) (by decide)

end Ashe.AesRoundTrip
