import Ashe.AesCbc
import Ashe.AesInverse
import Ashe.ByteWords
import Mathlib.Algebra.Group.Nat.Defs

namespace Ashe.AesBlocks

open AesCipher AesInverse AesCbc Buffers ByteWords CbcChaining

@[simp]
theorem bytes_length (s : State) : (State.bytes s).length = 16 := rfl

@[simp]
theorem flatMap_bytes_length (blocks : List State) :
    (blocks.flatMap State.bytes).length = 16 * blocks.length := by
  induction blocks with
  | nil => rfl
  | cons s blocks ih => simp [ih]; omega

theorem Column.load_bytes (before after : List UInt8) (c : Column) {i : Nat}
    (hi : i = before.length) : Column.load (before ++ (Column.bytes c ++ after)) i = some c := by
  subst hi
  simp [Column.load, Column.bytes]

theorem load_bytes (before after : List UInt8) (s : State) :
    State.load (before ++ (State.bytes s ++ after)) before.length = some s := by
  have h0 := Column.load_bytes before
    (Column.bytes s.c1 ++ (Column.bytes s.c2 ++ (Column.bytes s.c3 ++ after))) s.c0 rfl
  have h1 := Column.load_bytes (before ++ Column.bytes s.c0)
    (Column.bytes s.c2 ++ (Column.bytes s.c3 ++ after)) s.c1
    (i := before.length + 4) (by simp [Column.bytes])
  have h2 := Column.load_bytes (before ++ Column.bytes s.c0 ++ Column.bytes s.c1)
    (Column.bytes s.c3 ++ after) s.c2 (i := before.length + 8) (by simp [Column.bytes])
  have h3 := Column.load_bytes
    (before ++ Column.bytes s.c0 ++ Column.bytes s.c1 ++ Column.bytes s.c2) after s.c3
    (i := before.length + 12) (by simp [Column.bytes])
  simp only [List.append_assoc] at h0 h1 h2 h3
  simp only [State.load, State.bytes, List.append_assoc, h0, h1, h2, h3, Option.bind_eq_bind,
    Option.bind_some]

theorem exists_blocks {n : Nat} {buffer : List UInt8} (h : buffer.length = 16 * n) :
    ∃ blocks : List State, blocks.length = n ∧ blocks.flatMap State.bytes = buffer := by
  induction n generalizing buffer with
  | zero => exact ⟨[], rfl, (List.eq_nil_of_length_eq_zero h).symm⟩
  | succ n ih =>
      match buffer, h with
      | b0 :: b1 :: b2 :: b3 :: b4 :: b5 :: b6 :: b7 :: b8 :: b9 :: b10 :: b11 :: b12 :: b13 ::
          b14 :: b15 :: buffer, h =>
        have hrest : buffer.length = 16 * n := by simp at h; omega
        obtain ⟨blocks, hl, hb⟩ := ih hrest
        exact ⟨⟨⟨b0, b1, b2, b3⟩, ⟨b4, b5, b6, b7⟩, ⟨b8, b9, b10, b11⟩, ⟨b12, b13, b14, b15⟩⟩ ::
          blocks, by simp [hl], by rw [List.flatMap_cons, hb]; rfl⟩

theorem exists_state {bs : List UInt8} (h : bs.length = 16) :
    ∃ s : State, State.bytes s = bs ∧ State.load bs 0 = some s := by
  obtain ⟨blocks, hl, rfl⟩ := exists_blocks (n := 1) h
  obtain ⟨s, rfl⟩ := List.length_eq_one_iff.mp hl
  refine ⟨s, by simp, ?_⟩
  simpa using load_bytes [] [] s

theorem copy_block (before after : List UInt8) (s out : State) :
    copy (before ++ (State.bytes s ++ after)) before.length (State.bytes out) =
      some (before ++ State.bytes out ++ after) := by
  rw [@copy_middle _ before (State.bytes s) after _ (State.bytes out) rfl rfl, List.append_assoc]

theorem pointee_block (ctx : AESCtx) (before after : List UInt8) (s : State) :
    pointee ctx (before ++ State.bytes s ++ after) (some before.length) = some s := by
  rw [List.append_assoc]
  exact load_bytes before after s

/-- A loop that is at place `i` and goes on while this is less than `length`
takes `n` more blocks. -/
def Covers (length i n : Nat) : Prop := length ≤ i + 16 * n ∧ i + 16 * n < length + 16

theorem Covers.done {length i : Nat} (h : Covers length i 0) : ¬ i < length := by
  have := h.1
  omega

theorem Covers.goes {length i n : Nat} (h : Covers length i (n + 1)) : i < length := by
  have := h.2
  omega

theorem Covers.step {length i n : Nat} (h : Covers length i (n + 1)) :
    Covers length (i + 16) n :=
  ⟨by have := h.1; omega, by have := h.2; omega⟩

/-- The blocks before place `i` hold the output. The pointer is at the block
written last, or at the field of the context. -/
theorem cbcEncryptLoop_blocks (ctx : AESCtx) {length : Nat} {iv : State} (blocks : List State)
    (before : List UInt8) {Iv : Option Nat}
    (hiv : ∀ after, pointee ctx (before ++ after) Iv = some iv)
    (hl : Covers length before.length blocks.length) :
    ∃ Iv' iv', cbcEncryptLoop ctx length (before ++ blocks.flatMap State.bytes) before.length Iv =
      some (before ++ (encrypt (cipher · ctx.RoundKey) iv blocks).flatMap State.bytes, Iv') ∧
      pointee ctx (before ++ (encrypt (cipher · ctx.RoundKey) iv blocks).flatMap State.bytes) Iv' =
        some iv' := by
  induction blocks generalizing before iv Iv with
  | nil =>
      rw [cbcEncryptLoop, if_neg hl.done]
      exact ⟨Iv, iv, rfl, hiv _⟩
  | cons s blocks ih =>
      let out := cipher (xorWithIv s iv) ctx.RoundKey
      have hlen : (before ++ State.bytes out).length = before.length + AES_BLOCKLEN := by
        rw [List.length_append]
        rfl
      obtain ⟨Iv', iv', hrest, hiv'⟩ := ih (before ++ State.bytes out)
        (fun after => pointee_block ctx before after out) (by rw [hlen]; exact hl.step)
      refine ⟨Iv', iv', ?_, ?_⟩
      · rw [cbcEncryptLoop, if_pos hl.goes, List.flatMap_cons, load_bytes]
        simp only [hiv, Option.bind_eq_bind, Option.bind_some]
        rw [copy_block, Option.bind_some, ← hlen, hrest, List.append_assoc]
        rfl
      · rw [List.append_assoc] at hiv'
        exact hiv'

theorem cbcDecryptLoop_blocks (ctx : AESCtx) {length : Nat} (blocks : List State)
    (before rest : List UInt8) (hl : Covers length before.length blocks.length) :
    ∃ ctx', cbcDecryptLoop ctx length (before ++ (blocks.flatMap State.bytes ++ rest))
        before.length = some (ctx', before ++
          ((decrypt (invCipher · ctx.RoundKey) ctx.Iv blocks).flatMap State.bytes ++ rest)) := by
  induction blocks generalizing before ctx with
  | nil =>
      rw [cbcDecryptLoop, if_neg hl.done]
      exact ⟨ctx, rfl⟩
  | cons s blocks ih =>
      let out := xorWithIv (invCipher s ctx.RoundKey) ctx.Iv
      have hlen : (before ++ State.bytes out).length = before.length + AES_BLOCKLEN := by
        rw [List.length_append]
        rfl
      obtain ⟨ctx', hrest⟩ := ih ⟨ctx.RoundKey, s⟩ (before ++ State.bytes out)
        (by rw [hlen]; exact hl.step)
      refine ⟨ctx', ?_⟩
      rw [cbcDecryptLoop, if_pos hl.goes, List.flatMap_cons, List.append_assoc, load_bytes]
      simp only [Option.bind_eq_bind, Option.bind_some]
      rw [copy_block, Option.bind_some, ← hlen, hrest, decrypt, List.flatMap_cons,
        List.append_assoc, List.append_assoc]
      rfl

theorem aesCBCEncryptBuffer_blocks (ctx : AESCtx) (blocks : List State) {length : Nat}
    (hl : Covers length 0 blocks.length) (hlt : length < 2 ^ 32) :
    ∃ ctx', aesCBCEncryptBuffer ctx (blocks.flatMap State.bytes) (UInt32.ofNat length) =
      some (ctx', (encrypt (cipher · ctx.RoundKey) ctx.Iv blocks).flatMap State.bytes) := by
  have start (after : List UInt8) : pointee ctx ([] ++ after) none = some ctx.Iv := rfl
  obtain ⟨Iv, iv, hloop, hiv⟩ := cbcEncryptLoop_blocks ctx blocks [] start hl
  simp only [List.nil_append, List.length_nil] at hloop hiv
  refine ⟨⟨ctx.RoundKey, iv⟩, ?_⟩
  rw [aesCBCEncryptBuffer, toNat_length hlt, hloop]
  simp only [Option.bind_eq_bind, Option.bind_some, hiv]

theorem aesCBCDecryptBuffer_blocks (ctx : AESCtx) (blocks : List State) {length : Nat}
    (hl : Covers length 0 blocks.length) (hlt : length < 2 ^ 32) :
    ∃ ctx', aesCBCDecryptBuffer ctx (blocks.flatMap State.bytes) (UInt32.ofNat length) =
      some (ctx', (decrypt (invCipher · ctx.RoundKey) ctx.Iv blocks).flatMap State.bytes) := by
  obtain ⟨ctx', hloop⟩ := cbcDecryptLoop_blocks ctx blocks [] [] hl
  rw [List.append_nil, List.append_nil, List.nil_append, List.nil_append] at hloop
  rw [aesCBCDecryptBuffer, toNat_length hlt]
  exact ⟨ctx', hloop⟩

end Ashe.AesBlocks
