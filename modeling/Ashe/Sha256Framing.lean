import Ashe.BlockFraming
import Ashe.Sha256

namespace Ashe.Sha256Framing

open Buffers ByteWords BlockFraming HashInput Sha256

variable {σ : Type} {transform : σ → List UInt32 → σ} {init : σ}

def compress (transform : σ → List UInt32 → σ) (state : σ) (block : List UInt8) : σ :=
  transform state (bigWords block)

/-- The blocks that have been compressed are counted in two words. -/
structure Compressed (transform : σ → List UInt32 → σ) (init : σ) (ctx : SHA256Ctx σ)
    (blocks : List (List UInt8)) : Prop where
  state : ctx.state = blocks.foldl (compress transform) init
  low : ctx.count_low.toNat = blocks.length % 2 ^ 32
  high : ctx.count_high.toNat = blocks.length / 2 ^ 32 % 2 ^ 32

/-- The context after the bytes of `m`: the rest behind whole blocks is in the
buffer, and the index is its length. -/
structure Represents (transform : σ → List UInt32 → σ) (init : σ) (ctx : SHA256Ctx σ)
    (m : List UInt8) : Prop where
  compressed : Compressed transform init ctx (wholeBlocks 64 m)
  block : Filled 64 ctx.block (remainder 64 m)
  index : ctx.index.toNat = m.length % 64

theorem init_represents {ctx : SHA256Ctx σ} (h : ctx.block.length = 64) :
    Represents transform init (Sha256.init init ctx) [] := by
  refine ⟨⟨?_, ?_, ?_⟩, ⟨h, List.nil_prefix⟩, rfl⟩ <;> rw [wholeBlocks_nil (by decide)] <;> rfl

theorem Compressed.keep {ctx : SHA256Ctx σ} {blocks : List (List UInt8)}
    (h : Compressed transform init ctx blocks) (b : List UInt8) (i : UInt32) :
    Compressed transform init { ctx with block := b, index := i } blocks :=
  ⟨h.state, h.low, h.high⟩

theorem Compressed.block {ctx : SHA256Ctx σ} {blocks : List (List UInt8)}
    (h : Compressed transform init ctx blocks) (b : List UInt8) :
    Compressed transform init (sha256Block transform ctx b) (blocks ++ [b]) := by
  have hlow := h.low
  have hhigh := h.high
  have hadd : (ctx.count_low + 1).toNat = (blocks.length + 1) % 2 ^ 32 := by
    rw [UInt32.toNat_add, hlow, show (1 : UInt32).toNat = 1 from rfl]
    omega
  refine ⟨?_, ?_, ?_⟩
  · rw [List.foldl_append, ← h.state]
    rfl
  · rw [List.length_append, List.length_singleton]
    exact hadd
  · rw [List.length_append, List.length_singleton, sha256Block]
    dsimp only
    have hzero : ctx.count_low + 1 = 0 ↔ (blocks.length + 1) % 2 ^ 32 = 0 := by
      rw [← UInt32.toNat_inj, hadd]
      rfl
    split
    next hc =>
      have := hzero.mp hc
      rw [UInt32.toNat_add, hhigh, show (1 : UInt32).toNat = 1 from rfl]
      omega
    next hc =>
      have := mt hzero.mpr hc
      rw [hhigh]
      omega

theorem blockLoop_blocks (before rest behind : List UInt8) {ctx : SHA256Ctx σ}
    {blocks : List (List UInt8)} (h : Compressed transform init ctx blocks) :
    ∃ ctx', blockLoop transform ctx (before ++ (rest ++ behind)) before.length rest.length =
        some (ctx', before.length + (rest.length - rest.length % 64), rest.length % 64) ∧
      Compressed transform init ctx' (blocks ++ wholeBlocks 64 rest) ∧
      ctx'.block = ctx.block := by
  induction rest using blocks_induction (B := 64) (by decide) generalizing before ctx blocks with
  | short rest hr =>
      have hstop : ¬ rest.length ≥ SHA256_DATA_SIZE := Nat.not_le.mpr hr
      rw [blockLoop, if_neg hstop, wholeBlocks_short hr, List.append_nil, Nat.mod_eq_of_lt hr,
        Nat.sub_self, Nat.add_zero]
      exact ⟨ctx, rfl, h, rfl⟩
  | block b rest hb ih =>
      have hlen : (b ++ rest).length = SHA256_DATA_SIZE + rest.length := by
        rw [List.length_append, hb]
        rfl
      have hgo : (b ++ rest).length ≥ SHA256_DATA_SIZE := by
        rw [hlen]
        exact Nat.le_add_right ..
      obtain ⟨ctx', hloop, hc, hblock⟩ := ih (before ++ b) (h.block b)
      refine ⟨ctx', ?_, ?_, hblock⟩
      · have hslice := slice_middle before b (rest ++ behind) rfl
          (show SHA256_DATA_SIZE = b.length from hb.symm)
        have hmod : (SHA256_DATA_SIZE + rest.length) % 64 = rest.length % 64 :=
          Nat.add_mod_left 64 rest.length
        rw [List.append_assoc, List.length_append, hb] at hloop
        rw [blockLoop, if_pos hgo, List.append_assoc, hslice, Option.bind_eq_bind,
          Option.bind_some, hlen, hmod, Nat.add_sub_cancel_left]
        refine hloop.trans ?_
        have := Nat.mod_le rest.length 64
        simp only [SHA256_DATA_SIZE]
        congr 3
        omega
      · rwa [wholeBlocks_block (by decide) hb, ← List.singleton_append, ← List.append_assoc]

theorem updateRest_blocks (before rest behind : List UInt8) {ctx : SHA256Ctx σ}
    {m : List UInt8} {blocks : List (List UInt8)} (h : Compressed transform init ctx blocks)
    (hblock : Filled 64 ctx.block []) (hw : wholeBlocks 64 m = blocks ++ wholeBlocks 64 rest)
    (hr : remainder 64 m = remainder 64 rest) :
    ∃ ctx', updateRest transform ctx (before ++ (rest ++ behind)) before.length rest.length =
        some ctx' ∧ Represents transform init ctx' m := by
  obtain ⟨ctx1, hloop, hc, hkeep⟩ := blockLoop_blocks before rest behind h
  have hplace := remainder_length 64 rest
  rw [← hkeep] at hblock
  obtain ⟨b, hcopy, hfilled⟩ := memcpy_remainder (by decide) (Nat.le_refl _) hblock
    before rest behind rfl rfl
  refine ⟨{ ctx1 with block := b, index := UInt32.ofNat (rest.length % 64) }, ?_, ?_, ?_, ?_⟩
  · rw [updateRest, hloop]
    simp only [Option.bind_eq_bind, Option.bind_some, hcopy]
  · rw [hw]
    exact hc.keep b _
  · rw [hr]
    exact hfilled
  · have hm := remainder_length 64 m
    rw [hr, hplace] at hm
    exact (toNat_length (by omega)).trans hm

theorem update_absorbs :
    Absorbs (update transform) (Represents transform init) (2 ^ 32 - 1) := by
  intro ctx m c behind h hc
  have hlen := toNat_length (show c.length < 2 ^ 32 by omega)
  generalize UInt32.ofNat c.length = len at hlen
  have hindex := h.index
  have hzero : ctx.index = 0 ↔ m.length % 64 = 0 := by
    rw [← UInt32.toNat_inj, hindex]
    rfl
  rw [update]
  by_cases h0 : ctx.index = 0
  · rw [if_neg (not_not.mpr h0), hlen]
    have hr : remainder 64 m = [] :=
      List.eq_nil_of_length_eq_zero ((remainder_length 64 m).trans (hzero.mp h0))
    have hw := wholeBlocks_append (B := 64) (by decide) m c
    have hrem := remainder_append (B := 64) (by decide) m c
    rw [hr, List.nil_append] at hw hrem
    exact updateRest_blocks [] c behind h.compressed h.block.start hw hrem
  · rw [if_pos h0]
    have hleft : (UInt32.ofNat SHA256_DATA_SIZE - ctx.index).toNat = 64 - m.length % 64 :=
      toNat_room (by decide) rfl hindex
    generalize UInt32.ofNat SHA256_DATA_SIZE - ctx.index = left at hleft
    dsimp only
    by_cases hshort : len < left
    · rw [if_pos hshort]
      rw [UInt32.lt_iff_toNat_lt, hlen, hleft] at hshort
      obtain ⟨b, hcopy, hw, hfilled⟩ :=
        memcpy_short (by decide) (Nat.le_refl _) h.block c behind hindex hlen (by omega)
      rw [hcopy]
      refine ⟨_, rfl, ?_, hfilled, ?_⟩
      · rw [hw]
        exact h.compressed.keep b _
      · dsimp only
        rw [toNat_add_small (by omega), hindex, hlen, List.length_append]
        omega
    · rw [if_neg hshort]
      rw [UInt32.lt_iff_toNat_lt, hlen, hleft] at hshort
      obtain ⟨c1, c2, rfl, hc1⟩ := exists_fill (show left.toNat ≤ c.length by omega)
      rw [List.length_append] at hlen
      obtain ⟨b, hcopy, hfilled, hfull, hw, hrem⟩ :=
        memcpy_fill (by decide) (Nat.le_refl _) h.block c1 c2 behind hindex hc1.symm (by omega)
      have hsub : (len - left).toNat = c2.length := by
        rw [toNat_sub_small (by omega)]
        omega
      rw [hcopy, List.append_assoc, Option.bind_eq_bind, Option.bind_some, hsub, ← hc1]
      refine updateRest_blocks c1 c2 behind ((h.compressed.keep b ctx.index).block b)
        hfilled.start ?_ hrem
      rw [hw, hfilled.full hfull, List.append_assoc, List.singleton_append]

theorem fillWord_zeros {block xs : List UInt8} (h : Filled 64 block xs) {k : Nat}
    (hk : (4 - xs.length % 4) % 4 = k) (hl : xs.length ≤ 64) :
    ∃ block', fillWord block xs.length = some (block', xs.length + k) ∧
      Filled 64 block' (xs ++ List.replicate k 0) := by
  induction k generalizing block xs with
  | zero =>
      rw [fillWord, if_neg (by omega), List.replicate_zero, List.append_nil]
      exact ⟨block, rfl, h⟩
  | succ k ih =>
      obtain ⟨b1, hstore, h1⟩ := h.store 0 (by omega)
      have hlen : (xs ++ [(0 : UInt8)]).length = xs.length + 1 := by
        rw [List.length_append, List.length_singleton]
      obtain ⟨b2, hrest, h2⟩ := ih h1 (by omega) (by omega)
      refine ⟨b2, ?_, ?_⟩
      · rw [fillWord, if_pos (by omega), hstore, Option.bind_eq_bind, Option.bind_some, ← hlen,
          hrest, hlen, Nat.add_assoc, Nat.add_comm 1 k]
      · rwa [List.append_assoc, List.singleton_append, ← List.replicate_succ] at h2

theorem length_words {ctx : SHA256Ctx σ} {m : List UInt8} (h : Represents transform init ctx m) :
    [(ctx.count_high <<< 9) ||| (ctx.count_low >>> 23),
      (ctx.count_low <<< 9) ||| (ctx.index <<< 3)] = bigWords (bigEndian 8 (8 * m.length)) := by
  have hlow := h.compressed.low
  have hhigh := h.compressed.high
  have hindex := h.index
  rw [wholeBlocks_length (by decide)] at hlow hhigh
  have h9 : (9 : UInt32).toNat = 9 := rfl
  have h23 : (ctx.count_low >>> 23).toNat = ctx.count_low.toNat / 2 ^ 23 := by
    rw [UInt32.toNat_shiftRight, Nat.shiftRight_eq_div_pow]
    rfl
  have h3 : (ctx.index <<< 3).toNat = ctx.index.toNat * 2 ^ 3 % 2 ^ 32 := by
    rw [UInt32.toNat_shiftLeft, Nat.shiftLeft_eq]
    rfl
  rw [bigWords_bigEndian]
  congr 1
  · apply UInt32.toNat_inj.mp
    rw [toNat_shiftLeft_or (by decide) (by rw [h9, h23]; omega), h9, h23, hlow, hhigh,
      UInt32.toNat_ofNat']
    omega
  · congr 1
    apply UInt32.toNat_inj.mp
    rw [toNat_shiftLeft_or (by decide) (by rw [h9, h3]; omega), h9, h3, hlow, hindex,
      UInt32.toNat_ofNat']
    omega

/-- Final compresses what is left of the framed message, in one block or two. -/
theorem final_framed {ctx : SHA256Ctx σ} {m : List UInt8} (h : Represents transform init ctx m) :
    ∃ ctx', final transform ctx = some ctx' ∧
      ctx'.state = (wholeBlocks 64 (framed 64 0x80 0 (bigEndian 8 (8 * m.length)) m)).foldl
        (compress transform) init := by
  have hplace := remainder_length 64 m
  obtain ⟨b1, hstore, h1⟩ := h.block.store 0x80 (by omega)
  have hlen1 : (remainder 64 m ++ [(0x80 : UInt8)]).length = m.length % 64 + 1 := by
    rw [List.length_append, hplace, List.length_singleton]
  obtain ⟨k, hk⟩ : ∃ k, (4 - (m.length % 64 + 1) % 4) % 4 = k := ⟨_, rfl⟩
  obtain ⟨b2, hfill, h2⟩ := fillWord_zeros h1 (k := k) (by rw [hlen1]; exact hk)
    (by rw [hlen1]; omega)
  rw [hplace, ← h.index] at hstore
  rw [hlen1, ← h.index] at hfill
  obtain ⟨words, hwords⟩ : ∃ words, (ctx.index.toNat + 1 + k) / 4 = words := ⟨_, rfl⟩
  have hindex := h.index
  let p := remainder 64 m ++ [0x80] ++ List.replicate k 0
  have hp : p.length = 4 * words := by
    simp only [p, List.length_append, hplace, List.length_singleton, List.length_replicate]
    omega
  have htake : b2.take (4 * words) = p := by
    rw [← hp]
    exact List.prefix_iff_eq_take.mp h2.2 |>.symm
  have hfield := length_words h
  rw [final]
  simp only [hstore, hfill, hwords, htake, Option.bind_eq_bind, Option.bind_some, hfield,
    SHA256_DATA_LENGTH]
  refine ⟨_, rfl, ?_⟩
  by_cases hroom : words > 16 - 2
  · rw [if_pos hroom, wholeBlocks_framed_long (k := 63 - m.length % 64) (l := 56) (by omega)
      (by rw [bigEndian_length]) (by omega)]
    have hfirst : remainder 64 m ++ 0x80 :: List.replicate (63 - m.length % 64) 0 =
        p ++ List.replicate (4 * (16 - words)) 0 := by
      have hzeros : 63 - m.length % 64 = k + 4 * (16 - words) := by omega
      rw [hzeros, ← List.replicate_append_replicate]
      simp only [p, List.append_assoc, List.cons_append, List.nil_append]
    have hsecond : bigWords (List.replicate 56 0 ++ bigEndian 8 (8 * m.length)) =
        List.replicate 14 0 ++ bigWords (bigEndian 8 (8 * m.length)) := by
      rw [bigWords_append (k := 14) List.length_replicate]
      rfl
    rw [hfirst, List.foldl_append, ← h.compressed.state]
    simp only [List.foldl_cons, List.foldl_nil, compress]
    rw [bigWords_append hp, bigWords_zeros, hsecond]
  · rw [if_neg hroom, wholeBlocks_framed_short (k := 55 - m.length % 64)
      (by rw [bigEndian_length]; omega)]
    have hlast : remainder 64 m ++ 0x80 :: (List.replicate (55 - m.length % 64) 0 ++
        bigEndian 8 (8 * m.length)) =
        p ++ (List.replicate (4 * (14 - words)) 0 ++ bigEndian 8 (8 * m.length)) := by
      have hzeros : 55 - m.length % 64 = k + 4 * (14 - words) := by omega
      rw [hzeros, ← List.replicate_append_replicate]
      simp only [p, List.append_assoc, List.cons_append, List.nil_append]
    rw [hlast, List.foldl_append, ← h.compressed.state]
    simp only [List.foldl_cons, List.foldl_nil, compress]
    rw [bigWords_append hp, bigWords_append (k := 14 - words) List.length_replicate, bigWords_zeros,
      ← List.append_assoc]

end Ashe.Sha256Framing
