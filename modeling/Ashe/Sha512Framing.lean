import Ashe.BlockFraming
import Ashe.HashFraming
import Ashe.Sha512

namespace Ashe.Sha512Framing

open Buffers ByteWords BlockFraming HashInput HashFraming Sha512

variable {σ δ : Type} {compress : σ → List UInt8 → σ} {start : σ}

/-- Blocks that stand one behind the other in memory. The loop over them never
leaves the range of int. -/
theorem transform_blocks (compress : σ → List UInt8 → σ) (message : List UInt8) (pos : Nat)
    (blocks : List (List UInt8)) (m_h : σ) {i : Nat} (hi : (i + blocks.length) * 128 ≤ 2 ^ 31)
    (hb : ∀ b ∈ blocks, b.length = 128)
    (hm : ∃ before behind, message = before ++ (blocks.flatten ++ behind) ∧
      before.length = pos + i * 128) :
    transform compress message pos m_h i blocks.length = some (blocks.foldl compress m_h) := by
  induction blocks generalizing i m_h with
  | nil => rfl
  | cons b blocks ih =>
      obtain ⟨before, behind, hmsg, hpos⟩ := hm
      rw [List.length_cons] at hi
      have hlen := hb b List.mem_cons_self
      have hslice : slice message (pos + i * 128) 128 = some b := by
        rw [hmsg, List.flatten_cons, List.append_assoc]
        exact slice_middle before b _ hpos.symm hlen.symm
      rw [List.length_cons, transform, if_pos (by omega), hslice]
      refine ih _ (by omega) (fun c hc => hb c (List.mem_cons_of_mem _ hc))
        ⟨before ++ b, behind, ?_, ?_⟩
      · rw [hmsg, List.flatten_cons, List.append_assoc, List.append_assoc]
      · rw [List.length_append, hlen, hpos]
        omega

theorem transform_first (compress : σ → List UInt8 → σ) (m_h : σ) {block b : List UInt8}
    (h : Filled 256 block b) (hb : b.length = 128) :
    transform compress block 0 m_h 0 1 = some (compress m_h b) := by
  obtain ⟨-, behind, rfl⟩ := h
  refine transform_blocks compress _ 0 [b] m_h (by simp) ?_ ⟨[], behind, ?_, rfl⟩
  · rintro c hc
    obtain rfl := List.mem_singleton.mp hc
    exact hb
  · rw [List.flatten_singleton, List.nil_append]

theorem transform_wholeBlocks (compress : σ → List UInt8 → σ) (before rest behind : List UInt8)
    (m_h : σ) {pos : Nat} (hrest : rest.length ≤ 2 ^ 31) (hpos : before.length = pos) :
    transform compress (before ++ (rest ++ behind)) pos m_h 0 (rest.length / 128) =
      some ((wholeBlocks 128 rest).foldl compress m_h) := by
  rw [← wholeBlocks_length (B := 128) (by decide) rest]
  refine transform_blocks compress _ _ _ _ ?_ (length_of_mem_wholeBlocks (by decide))
    ⟨before, remainder 128 rest ++ behind, ?_, hpos⟩
  · rw [wholeBlocks_length (by decide)]
    omega
  · rw [← List.append_assoc (wholeBlocks 128 rest).flatten, flatten_append_remainder (by decide)]

/-- The context after the bytes of `m`. Whole blocks have been compressed, and
their bytes are counted in 32 bits. -/
structure Represents (compress : σ → List UInt8 → σ) (start : σ) (ctx : SHA512 σ)
    (m : List UInt8) : Prop where
  m_h : ctx.m_h = (wholeBlocks 128 m).foldl compress start
  block : Filled 256 ctx.m_block (remainder 128 m)
  len : ctx.m_len.toNat = m.length % 128
  tot : ctx.m_tot_len.toNat = m.length / 128 * 128 % 2 ^ 32

theorem init_represents {ctx : SHA512 σ} (h : ctx.m_block.length = 256) :
    Represents compress start (Sha512.init start ctx) [] :=
  ⟨by rw [wholeBlocks_nil (by decide)]; rfl, ⟨h, List.nil_prefix⟩, rfl, rfl⟩

theorem blockSize_toNat : (UInt32.ofNat SHA384_512_BLOCK_SIZE).toNat = 128 := rfl

theorem toNat_shiftLeft_seven {x : UInt32} (h : x.toNat * 128 < 2 ^ 32) :
    (x <<< 7).toNat = x.toNat * 128 := by
  rw [UInt32.toNat_shiftLeft, Nat.shiftLeft_eq, show (7 : UInt32).toNat % 32 = 7 from rfl,
    Nat.mod_eq_of_lt h]

theorem room_toNat {ctx : SHA512 σ} {m : List UInt8} (h : Represents compress start ctx m) :
    (UInt32.ofNat SHA384_512_BLOCK_SIZE - ctx.m_len).toNat = 128 - m.length % 128 :=
  toNat_room (by decide) blockSize_toNat h.len

theorem filled_toNat {ctx : SHA512 σ} {m : List UInt8} {len : UInt32} {n : Nat}
    (h : Represents compress start ctx m) (hlen : len.toNat = n) (hn : n ≤ 2 ^ 29) :
    (ctx.m_len + len).toNat = m.length % 128 + n := by
  rw [toNat_add_small (by rw [h.len]; omega), h.len, hlen]

theorem update_short {ctx : SHA512 σ} {m c : List UInt8} (behind : List UInt8) {len : UInt32}
    (h : Represents compress start ctx m) (hlen : len.toNat = c.length)
    (hcase : m.length % 128 + c.length < 128) :
    ∃ ctx', update compress ctx (c ++ behind) len = some ctx' ∧
      Represents compress start ctx' (m ++ c) := by
  have hroom : len < UInt32.ofNat SHA384_512_BLOCK_SIZE - ctx.m_len := by
    rw [UInt32.lt_iff_toNat_lt, hlen, room_toNat h]
    omega
  have hsum := filled_toNat h hlen (by omega)
  have hshort : ctx.m_len + len < UInt32.ofNat SHA384_512_BLOCK_SIZE := by
    rw [UInt32.lt_iff_toNat_lt, hsum, blockSize_toNat]
    exact hcase
  obtain ⟨b, hcopy, hw, hfilled⟩ :=
    memcpy_short (by decide) (by decide) h.block c behind h.len hlen hcase
  rw [update]
  dsimp only
  rw [if_pos hroom, hcopy, Option.bind_eq_bind, Option.bind_some, if_pos hshort]
  refine ⟨_, rfl, ?_, hfilled, ?_, ?_⟩
  · rw [hw]
    exact h.m_h
  · rw [List.length_append]
    dsimp only
    rw [hsum]
    omega
  · rw [List.length_append]
    refine h.tot.trans ?_
    congr 2
    omega

theorem update_fill {ctx : SHA512 σ} {m c1 c2 : List UInt8} (behind : List UInt8) {len : UInt32}
    (h : Represents compress start ctx m) (hlen : len.toNat = c1.length + c2.length)
    (hc : c1.length + c2.length ≤ 2 ^ 29)
    (hc1 : c1.length = (UInt32.ofNat SHA384_512_BLOCK_SIZE - ctx.m_len).toNat) :
    ∃ ctx', update compress ctx (c1 ++ c2 ++ behind) len = some ctx' ∧
      Represents compress start ctx' (m ++ (c1 ++ c2)) := by
  have hblk := blockSize_toNat
  have htmp := room_toNat h
  have hsum := filled_toNat h hlen hc
  rw [update]
  generalize UInt32.ofNat SHA384_512_BLOCK_SIZE - ctx.m_len = tmp_len at htmp hc1
  generalize UInt32.ofNat SHA384_512_BLOCK_SIZE = size at hblk
  have hlong : ¬ctx.m_len + len < size := by
    rw [UInt32.lt_iff_toNat_lt, hsum, hblk]
    omega
  have hroom : ¬len < tmp_len := by
    rw [UInt32.lt_iff_toNat_lt, hlen]
    omega
  obtain ⟨b1, hcopy1, hfilled1, hfull1, hw, hr⟩ :=
    memcpy_fill (by decide) (by decide) h.block c1 c2 behind h.len hc1.symm (by omega)
  have hfirst := transform_first compress ctx.m_h hfilled1 hfull1
  obtain ⟨b2, hcopy2, hfilled2⟩ := memcpy_remainder (B := 128) (by decide) (by decide)
    hfilled1.start c1 c2 behind rfl rfl
  have hnew : (len - tmp_len).toNat = c2.length := by
    rw [toNat_sub_small (by omega)]
    omega
  have hnb : ((len - tmp_len) / size).toNat = c2.length / 128 := by
    rw [UInt32.toNat_div, hnew, hblk]
  have hrest : ((len - tmp_len) % size).toNat = c2.length % 128 := by
    rw [UInt32.toNat_mod, hnew, hblk]
  rw [hc1] at hcopy2
  dsimp only
  rw [if_neg hroom, hcopy1, List.append_assoc, Option.bind_eq_bind, Option.bind_some,
    if_neg hlong]
  generalize (len - tmp_len) / size = block_nb at hnb ⊢
  generalize (len - tmp_len) % size = rest at hrest ⊢
  have hshift : (block_nb <<< 7).toNat = c2.length - c2.length % 128 := by
    rw [toNat_shiftLeft_seven (by omega), hnb]
    omega
  have hmany := transform_wholeBlocks compress c1 c2 behind
    (compress ctx.m_h (remainder 128 m ++ c1)) (by omega) hc1
  simp only [Option.bind_eq_bind, hfirst, Option.bind_some, hnb, hmany, hshift, hrest, hcopy2]
  refine ⟨_, rfl, ?_, ?_, ?_, ?_⟩
  · rw [hw, List.foldl_append, List.foldl_cons, ← h.m_h]
  · rw [hr]
    exact hfilled2
  · rw [List.length_append, List.length_append]
    refine hrest.trans ?_
    omega
  · have hone : (block_nb + 1).toNat = c2.length / 128 + 1 := by
      rw [toNat_add_small (by rw [hnb, show (1 : UInt32).toNat = 1 from rfl]; omega), hnb]
      rfl
    rw [List.length_append, List.length_append]
    dsimp only
    rw [UInt32.toNat_add, toNat_shiftLeft_seven (by omega), hone, h.tot]
    omega

theorem update_absorbs : Absorbs (update compress) (Represents compress start) (2 ^ 29) := by
  intro ctx m c behind h hc
  have hlen := toNat_length (show c.length < 2 ^ 32 by omega)
  by_cases hcase : m.length % 128 + c.length < 128
  · exact update_short behind h hlen hcase
  · have hroom := room_toNat h
    obtain ⟨c1, c2, rfl, hc1⟩ := exists_fill
      (show (UInt32.ofNat SHA384_512_BLOCK_SIZE - ctx.m_len).toNat ≤ c.length by omega)
    have hlength : (c1 ++ c2).length = c1.length + c2.length := List.length_append
    exact update_fill behind h (hlen.trans hlength) (hlength ▸ hc) hc1

end Ashe.Sha512Framing
