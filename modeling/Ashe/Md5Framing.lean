import Ashe.BlockFraming
import Ashe.Md5

namespace Ashe.Md5Framing

open Buffers ByteWords BlockFraming HashInput Md5

variable {σ : Type} {transform : σ → List UInt8 → σ} {init : σ}

/-- The context after the bytes of `m`: whole blocks are in the chaining value,
the rest is in the buffer, and the count is that of the bytes. -/
structure Represents (transform : σ → List UInt8 → σ) (init : σ) (ctx : MD5Context σ)
    (m : List UInt8) : Prop where
  buf : ctx.buf = (wholeBlocks 64 m).foldl transform init
  input : Filled 64 ctx.input (remainder 64 m)
  bytes0 : ctx.bytes0.toNat = m.length % 2 ^ 32
  bytes1 : ctx.bytes1.toNat = m.length / 2 ^ 32 % 2 ^ 32

theorem md5Init_represents {ctx : MD5Context σ} (h : ctx.input.length = 64) :
    Represents transform init (md5Init init ctx) [] :=
  ⟨by rw [wholeBlocks_nil (by decide)]; rfl, ⟨h, List.nil_prefix⟩, rfl, rfl⟩

theorem Represents.place {ctx : MD5Context σ} {m : List UInt8}
    (h : Represents transform init ctx m) : (ctx.bytes0 &&& 0x3f).toNat = m.length % 64 := by
  rw [UInt32.toNat_and, show (0x3f : UInt32).toNat = 2 ^ 6 - 1 from rfl,
    Nat.and_two_pow_sub_one_eq_mod, h.bytes0]
  omega

theorem chunkLoop_blocks (transform : σ → List UInt8 → σ) (before rest behind : List UInt8)
    (state : σ) {block : List UInt8} (h : Filled 64 block []) :
    ∃ block', chunkLoop transform (before ++ (rest ++ behind)) state block before.length
        rest.length = some ((wholeBlocks 64 rest).foldl transform state, block',
          before.length + (rest.length - rest.length % 64), rest.length % 64) ∧
      Filled 64 block' [] := by
  induction rest using blocks_induction (B := 64) (by decide)
      generalizing before state block with
  | short rest hr =>
      rw [chunkLoop, if_neg (by omega), wholeBlocks_short hr, Nat.mod_eq_of_lt hr, Nat.sub_self]
      exact ⟨block, rfl, h⟩
  | block b rest hb ih =>
      obtain ⟨block1, hcopy, h1⟩ := h.memcpy before b (rest ++ behind) (i := before.length)
        (k := 64) rfl hb.symm (by rw [hb]; decide)
      have hblock : block1 = b := h1.full hb
      obtain ⟨block', hloop, h'⟩ := ih (before ++ b) (transform state block1) h1.start
      refine ⟨block', ?_, h'⟩
      have hlen : (b ++ rest).length = 64 + rest.length := by rw [List.length_append, hb]
      rw [List.length_nil] at hcopy
      rw [List.append_assoc, List.length_append, hb] at hloop
      rw [chunkLoop, if_pos (by omega), List.append_assoc, hcopy, Option.bind_eq_bind,
        Option.bind_some, hlen, Nat.add_mod_left, Nat.add_sub_cancel_left,
        wholeBlocks_block (by decide) hb, List.foldl_cons]
      rw [hblock] at hloop ⊢
      refine hloop.trans ?_
      have := Nat.mod_le rest.length 64
      congr 4
      omega

theorem count_add {c0 c1 len : UInt32} {n l : Nat} (h0 : c0.toNat = n % 2 ^ 32)
    (h1 : c1.toNat = n / 2 ^ 32 % 2 ^ 32) (hl : len.toNat = l) :
    (c0 + len).toNat = (n + l) % 2 ^ 32 ∧
      (if c0 + len < c0 then c1 + 1 else c1).toNat = (n + l) / 2 ^ 32 % 2 ^ 32 := by
  have hlt := len.toNat_lt
  have hsum : (c0 + len).toNat = (n + l) % 2 ^ 32 := by
    rw [UInt32.toNat_add, h0, hl]
    omega
  refine ⟨hsum, ?_⟩
  split
  next hc =>
    rw [UInt32.lt_iff_toNat_lt, hsum, h0] at hc
    rw [UInt32.toNat_add, h1, show (1 : UInt32).toNat = 1 from rfl]
    omega
  next hc =>
    rw [UInt32.lt_iff_toNat_lt, hsum, h0] at hc
    rw [h1]
    omega

theorem md5Update_absorbs :
    Absorbs (md5Update transform) (Represents transform init) (2 ^ 32 - 1) := by
  intro ctx m c behind h hc
  have hlen := toNat_length (show c.length < 2 ^ 32 by omega)
  generalize UInt32.ofNat c.length = len at hlen
  obtain ⟨h0, h1⟩ := count_add h.bytes0 h.bytes1 hlen
  rw [← List.length_append] at h0 h1
  have ht : (64 - (ctx.bytes0 &&& 0x3f)).toNat = 64 - m.length % 64 :=
    toNat_room (by decide) rfl h.place
  rw [md5Update]
  dsimp only
  generalize 64 - (ctx.bytes0 &&& 0x3f) = t at ht
  have h64 : (64 : UInt32).toNat = 64 := rfl
  have hfrom : (64 - t).toNat = m.length % 64 := by
    rw [toNat_sub_small (by omega), ht, h64]
    omega
  by_cases hshort : t > len
  · rw [if_pos hshort]
    rw [gt_iff_lt, UInt32.lt_iff_toNat_lt, hlen, ht] at hshort
    obtain ⟨b, hcopy, hw, hfilled⟩ :=
      memcpy_short (by decide) (Nat.le_refl _) h.input c behind hfrom hlen (by omega)
    rw [hcopy]
    exact ⟨_, rfl, by rw [hw]; exact h.buf, hfilled, h0, h1⟩
  · rw [if_neg hshort]
    rw [gt_iff_lt, UInt32.lt_iff_toNat_lt, hlen, ht] at hshort
    obtain ⟨c1, c2, rfl, hc1⟩ := exists_fill (show t.toNat ≤ c.length by omega)
    rw [List.length_append] at hlen
    obtain ⟨b1, hcopy1, hfilled1, hfull1, hw, hrem⟩ :=
      memcpy_fill (by decide) (Nat.le_refl _) h.input c1 c2 behind hfrom hc1.symm (by omega)
    obtain ⟨b2, hloop, hfilled2⟩ := chunkLoop_blocks transform c1 c2 behind
      (transform ctx.buf b1) hfilled1.start
    obtain ⟨b3, hcopy3, hfilled3⟩ :=
      memcpy_remainder (by decide) (Nat.le_refl _) hfilled2 c1 c2 behind rfl rfl
    have hsub : (len - t).toNat = c2.length := by
      rw [toNat_sub_small (by omega)]
      omega
    rw [hcopy1, List.append_assoc, Option.bind_eq_bind, Option.bind_some, hsub, ← hc1, hloop]
    simp only [Option.bind_eq_bind, Option.bind_some, hcopy3]
    refine ⟨_, rfl, ?_, by rw [hrem]; exact hfilled3, h0, h1⟩
    rw [hw, List.foldl_append, List.foldl_cons, ← h.buf, hfilled1.full hfull1]

theorem lastBlock_framed {ctx : MD5Context σ} {m : List UInt8}
    (h : Represents transform init ctx m) {field : List UInt8} (hf : field.length = 8) :
    ∃ state block q, lastBlock transform ctx = some (state, block) ∧ Filled 64 block q ∧
      q.length = 56 ∧ (wholeBlocks 64 (framed 64 0x80 0 field m)).foldl transform init =
        transform state (q ++ field) := by
  have hplace := remainder_length 64 m
  obtain ⟨b1, hstore, h1⟩ := h.input.store 0x80 (by omega)
  have hlen1 : (remainder 64 m ++ [(0x80 : UInt8)]).length = m.length % 64 + 1 := by
    rw [List.length_append, hplace, List.length_singleton]
  rw [hplace] at hstore
  rw [lastBlock]
  simp only [h.place, hstore, Option.bind_eq_bind, Option.bind_some]
  by_cases hroom : 56 < m.length % 64 + 1
  · obtain ⟨b2, hcopy2, h2⟩ := h1.copy (List.replicate (64 - (m.length % 64 + 1)) 0)
      (by rw [hlen1, List.length_replicate]; omega)
    rw [hlen1] at hcopy2
    have hb2 : b2 = remainder 64 m ++ 0x80 :: List.replicate (64 - (m.length % 64 + 1)) 0 := by
      rw [← List.singleton_append, ← List.append_assoc]
      apply h2.full
      rw [List.length_append, hlen1, List.length_replicate]
      omega
    obtain ⟨b3, hcopy3, h3⟩ := h2.start.copy (List.replicate 56 0) (by simp)
    rw [List.length_nil] at hcopy3
    rw [if_pos hroom, hcopy2, Option.bind_some, hcopy3]
    refine ⟨_, _, _, rfl, h3, rfl, ?_⟩
    rw [wholeBlocks_framed_long (k := 64 - (m.length % 64 + 1)) (l := 56) (by omega) (by rw [hf])
      (by omega), List.foldl_append, ← h.buf, hb2]
    rfl
  · obtain ⟨b2, hcopy2, h2⟩ := h1.copy (List.replicate (56 - (m.length % 64 + 1)) 0)
      (by rw [hlen1, List.length_replicate]; omega)
    rw [hlen1] at hcopy2
    rw [if_neg hroom, hcopy2]
    refine ⟨_, _, _, rfl, h2, by rw [List.length_append, hlen1, List.length_replicate]; omega, ?_⟩
    rw [wholeBlocks_framed_short (k := 56 - (m.length % 64 + 1)) (by omega), List.foldl_append,
      ← h.buf]
    simp only [List.append_assoc, List.cons_append, List.nil_append]
    rfl

theorem length_bytes {ctx : MD5Context σ} {m : List UInt8} (h : Represents transform init ctx m) :
    littleEndian 4 (ctx.bytes0 <<< 3).toNat ++
        littleEndian 4 ((ctx.bytes1 <<< 3) ||| (ctx.bytes0 >>> 29)).toNat =
      littleEndian 8 (8 * m.length) := by
  have h0 := h.bytes0
  have h1 := h.bytes1
  have h3 : (ctx.bytes0 <<< 3).toNat = 8 * m.length % 256 ^ 4 := by
    rw [UInt32.toNat_shiftLeft, Nat.shiftLeft_eq, h0, show (3 : UInt32).toNat % 32 = 3 from rfl]
    omega
  have h29 : (ctx.bytes0 >>> 29).toNat = ctx.bytes0.toNat / 2 ^ 29 := by
    rw [UInt32.toNat_shiftRight, Nat.shiftRight_eq_div_pow]
    rfl
  have hk : (3 : UInt32).toNat = 3 := rfl
  have hhigh : ((ctx.bytes1 <<< 3) ||| (ctx.bytes0 >>> 29)).toNat =
      8 * m.length / 256 ^ 4 % 256 ^ 4 := by
    rw [toNat_shiftLeft_or (by decide) (by rw [hk, h29]; omega), hk, h29, h0, h1]
    omega
  rw [h3, hhigh, littleEndian_mod, littleEndian_mod, littleEndian_add 4 4]

theorem md5Final_framed {δ : Type} (digestBytes : σ → δ) {ctx : MD5Context σ} {m : List UInt8}
    (h : Represents transform init ctx m) : md5Final transform digestBytes ctx =
      some (digestBytes ((wholeBlocks 64 (framed 64 0x80 0 (littleEndian 8 (8 * m.length)) m)).foldl
        transform init)) := by
  obtain ⟨state, block, q, hlast, hq, hlen, hfold⟩ :=
    lastBlock_framed h (littleEndian_length 8 (8 * m.length))
  obtain ⟨b1, hcopy1, h1⟩ := hq.copy (littleEndian 4 (ctx.bytes0 <<< 3).toNat)
    (by rw [hlen, littleEndian_length]; decide)
  have hlen1 : (q ++ littleEndian 4 (ctx.bytes0 <<< 3).toNat).length = 60 := by
    rw [List.length_append, hlen, littleEndian_length]
  obtain ⟨b2, hcopy2, h2⟩ := h1.copy
    (littleEndian 4 ((ctx.bytes1 <<< 3) ||| (ctx.bytes0 >>> 29)).toNat)
    (Nat.le_of_eq (by rw [hlen1, littleEndian_length]))
  have hb2 : b2 = q ++ littleEndian 8 (8 * m.length) := by
    rw [← length_bytes h, ← List.append_assoc]
    apply h2.full
    rw [List.length_append, hlen1, littleEndian_length]
  rw [hlen] at hcopy1
  rw [hlen1] at hcopy2
  rw [md5Final, hlast]
  simp only [Option.bind_eq_bind, Option.bind_some, hcopy1, hcopy2]
  rw [hb2, hfold]

end Ashe.Md5Framing
