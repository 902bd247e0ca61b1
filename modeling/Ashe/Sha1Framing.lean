import Ashe.BlockFraming
import Ashe.Sha1

namespace Ashe.Sha1Framing

open Buffers ByteWords BlockFraming HashInput Sha1

variable {σ : Type} {transform : σ → List UInt8 → σ} {init : σ}

/-- The context after the bytes of `m`: whole blocks are in the chaining value,
the rest is in the buffer, and the count is that of the bits. -/
structure Represents (transform : σ → List UInt8 → σ) (init : σ) (ctx : SHA1 σ)
    (m : List UInt8) : Prop where
  state : ctx.m_state = (wholeBlocks 64 m).foldl transform init
  buffer : Filled 64 ctx.m_buffer (remainder 64 m)
  count0 : ctx.m_count0.toNat = 8 * m.length % 2 ^ 32
  count1 : ctx.m_count1.toNat = 8 * m.length / 2 ^ 32 % 2 ^ 32

theorem reset_represents {ctx : SHA1 σ} (h : ctx.m_buffer.length = 64) :
    Represents transform init (reset init ctx) [] :=
  ⟨by rw [wholeBlocks_nil (by decide)]; rfl, ⟨h, List.nil_prefix⟩, rfl, rfl⟩

theorem Represents.place {ctx : SHA1 σ} {m : List UInt8} (h : Represents transform init ctx m) :
    ((ctx.m_count0 >>> 3) &&& 63).toNat = m.length % 64 := by
  have h0 := h.count0
  rw [UInt32.toNat_and, UInt32.toNat_shiftRight, show (63 : UInt32).toNat = 2 ^ 6 - 1 from rfl,
    Nat.and_two_pow_sub_one_eq_mod, Nat.shiftRight_eq_div_pow, h0]
  simp only [show (3 : UInt32).toNat % 32 = 3 from rfl]
  omega

theorem transformLoop_blocks (transform : σ → List UInt8 → σ) {len : UInt32}
    (hlen : len.toNat + 64 ≤ 2 ^ 32) (before rest behind : List UInt8) {i : UInt32} (state : σ)
    (hi : i.toNat = before.length) (hl : len.toNat = before.length + rest.length) :
    ∃ i', transformLoop transform (before ++ (rest ++ behind)) len state i =
        some ((wholeBlocks 64 rest).foldl transform state, i') ∧
      i'.toNat = before.length + (rest.length - rest.length % 64) := by
  induction rest using blocks_induction (B := 64) (by decide) generalizing before i state with
  | short rest hr =>
      have h63 : (i + 63).toNat = i.toNat + 63 :=
        toNat_add_small (show i.toNat + 63 < 2 ^ 32 by omega)
      have hstop : ¬ i + 63 < len := by
        rw [UInt32.lt_iff_toNat_lt, h63]
        omega
      rw [transformLoop, if_neg hstop, wholeBlocks_short hr]
      exact ⟨i, rfl, by omega⟩
  | block b rest hb ih =>
      rw [List.length_append, hb] at hl
      have h63 : (i + 63).toNat = i.toNat + 63 :=
        toNat_add_small (show i.toNat + 63 < 2 ^ 32 by omega)
      have h64 : (i + 64).toNat = i.toNat + 64 :=
        toNat_add_small (show i.toNat + 64 < 2 ^ 32 by omega)
      have hgo : i + 63 < len := by
        rw [UInt32.lt_iff_toNat_lt, h63]
        omega
      have hbefore : (before ++ b).length = before.length + 64 := by rw [List.length_append, hb]
      obtain ⟨i', hrest, hi'⟩ := @ih (before ++ b) (i + 64) (transform state b) (by omega)
        (by omega)
      refine ⟨i', ?_, by rw [hi', hbefore, List.length_append, hb]; omega⟩
      have hslice := slice_middle before b (rest ++ behind) hi hb.symm
      rw [transformLoop, if_pos hgo, dif_pos (by omega), List.append_assoc, hslice,
        Option.bind_eq_bind, Option.bind_some, wholeBlocks_block (by decide) hb, List.foldl_cons,
        ← hrest]
      simp only [List.append_assoc]

theorem count_add {c0 c1 len : UInt32} {n l : Nat} (h0 : c0.toNat = 8 * n % 2 ^ 32)
    (h1 : c1.toNat = 8 * n / 2 ^ 32 % 2 ^ 32) (hl : len.toNat = l) :
    (c0 + (len <<< 3)).toNat = 8 * (n + l) % 2 ^ 32 ∧
      ((if c0 + (len <<< 3) < len <<< 3 then c1 + 1 else c1) + (len >>> 29)).toNat =
        8 * (n + l) / 2 ^ 32 % 2 ^ 32 := by
  have hlt := len.toNat_lt
  have h3 : (len <<< 3).toNat = 8 * l % 2 ^ 32 := by
    rw [UInt32.toNat_shiftLeft, Nat.shiftLeft_eq, hl, show (3 : UInt32).toNat % 32 = 3 from rfl]
    omega
  have h29 : (len >>> 29).toNat = l / 2 ^ 29 := by
    rw [UInt32.toNat_shiftRight, Nat.shiftRight_eq_div_pow, hl]
    rfl
  have hsum : (c0 + (len <<< 3)).toNat = 8 * (n + l) % 2 ^ 32 := by
    rw [UInt32.toNat_add, h0, h3]
    omega
  refine ⟨hsum, ?_⟩
  split
  next hc =>
    rw [UInt32.lt_iff_toNat_lt, hsum, h3] at hc
    rw [UInt32.toNat_add, UInt32.toNat_add, h1, h29, show (1 : UInt32).toNat = 1 from rfl]
    omega
  next hc =>
    rw [UInt32.lt_iff_toNat_lt, hsum, h3] at hc
    rw [UInt32.toNat_add, h1, h29]
    omega

/-- The carry is exact, and the place in the buffer is that of the message. -/
theorem update_absorbs : Absorbs (update transform) (Represents transform init) (2 ^ 32 - 128) := by
  intro ctx m c behind h hc
  have hlen := toNat_length (show c.length < 2 ^ 32 by omega)
  generalize UInt32.ofNat c.length = len at hlen
  obtain ⟨h0, h1⟩ := count_add h.count0 h.count1 hlen
  rw [← List.length_append] at h0 h1
  have hj := h.place
  rw [update]
  dsimp only
  generalize (ctx.m_count0 >>> 3) &&& 63 = j at hj
  have hfull : j + len > 63 ↔ 64 ≤ m.length % 64 + c.length := by
    rw [gt_iff_lt, UInt32.lt_iff_toNat_lt, toNat_add_small (by omega), hj, hlen]
    exact Nat.lt_iff_add_one_le
  by_cases hc64 : 64 ≤ m.length % 64 + c.length
  · rw [if_pos (hfull.mpr hc64)]
    have hi : (64 - j).toNat = 64 - m.length % 64 := toNat_room (by decide) rfl hj
    generalize 64 - j = i at hi
    obtain ⟨c1, c2, rfl, hc1⟩ := exists_fill (show i.toNat ≤ c.length by omega)
    rw [List.length_append] at hlen hc hc64
    obtain ⟨b1, hcopy1, hfilled1, hfull1, hwhole, hrem⟩ :=
      memcpy_fill (by decide) (Nat.le_refl _) h.buffer c1 c2 behind hj hc1.symm (by omega)
    obtain ⟨i', hloop, hi'⟩ := transformLoop_blocks transform (by omega) c1 c2 behind
      (transform ctx.m_state b1) hc1.symm hlen
    have hrest : (len - i').toNat = c2.length % 64 := by
      rw [toNat_sub_small (by omega)]
      have := Nat.mod_le c2.length 64
      omega
    obtain ⟨b2, hcopy2, hfilled2⟩ :=
      memcpy_remainder (by decide) (Nat.le_refl _) hfilled1.start c1 c2 behind hi' hrest
    rw [hcopy1, List.append_assoc]
    simp only [Option.bind_eq_bind, Option.bind_some]
    rw [hloop, Option.bind_some, hcopy2, Option.bind_some]
    refine ⟨_, rfl, ?_, by rw [hrem]; exact hfilled2, h0, h1⟩
    rw [hwhole, List.foldl_append, List.foldl_cons, ← h.state, hfilled1.full hfull1]
  · rw [if_neg (fun hf => hc64 (hfull.mp hf))]
    obtain ⟨buffer, hcopy, hwhole, hfilled⟩ :=
      memcpy_short (by decide) (Nat.le_refl _) h.buffer c behind hj hlen (by omega)
    rw [hcopy]
    exact ⟨_, rfl, by rw [hwhole]; exact h.state, hfilled, h0, h1⟩

theorem missing_eq {ctx : SHA1 σ} {m : List UInt8} (h : Represents transform init ctx m) :
    missing ctx.m_count0 = (120 - m.length % 64) % 64 := by
  rw [missing, h.count0]
  omega

theorem full_iff {ctx : SHA1 σ} {m : List UInt8} (h : Represents transform init ctx m) :
    ctx.m_count0 &&& 504 = 448 ↔ missing ctx.m_count0 = 0 := by
  rw [← UInt32.toNat_inj, and_504_toNat, h.count0, show (448 : UInt32).toNat = 448 from rfl,
    missing_eq h]
  omega

theorem padLoop_zeros {k : Nat} {ctx : SHA1 σ} {m : List UInt8}
    (h : Represents transform init ctx m) (hk : missing ctx.m_count0 = k) :
    ∃ ctx', padLoop transform ctx = some ctx' ∧
      Represents transform init ctx' (m ++ List.replicate k 0) := by
  induction k generalizing ctx m with
  | zero =>
      refine ⟨ctx, ?_, by rwa [List.replicate_zero, List.append_nil]⟩
      rw [padLoop, dif_neg (not_not.mpr ((full_iff h).mpr hk))]
  | succ k ih =>
      have hmore : ctx.m_count0 &&& 504 ≠ 448 := fun hf => by
        rw [full_iff h] at hf
        omega
      obtain ⟨ctx1, hu, h1⟩ := update_absorbs ctx m [0] [0] h (by decide)
      replace hu : update transform ctx [0, 0] 1 = some ctx1 := hu
      have hstep := missing_step hmore
      rw [← update_count0 transform hu] at hstep
      obtain ⟨ctx2, hloop, h2⟩ := ih h1 (by omega)
      refine ⟨ctx2, ?_, ?_⟩
      · rw [padLoop, dif_pos hmore]
        split
        next hnone => exact absurd (hu.symm.trans hnone) (by simp)
        next ctx' hsome =>
          obtain rfl := Option.some.inj (hu.symm.trans hsome)
          exact hloop
      · rwa [List.append_assoc, List.singleton_append, ← List.replicate_succ] at h2

theorem toUInt8_shiftRight (w : UInt32) {k : Nat} (hk : k < 32) :
    ((w >>> UInt32.ofNat k) &&& 255).toUInt8 = UInt8.ofNat (w.toNat / 2 ^ k) := by
  apply UInt8.toNat_inj.mp
  rw [UInt32.toNat_toUInt8, UInt32.toNat_and, UInt32.toNat_shiftRight, toNat_length (by omega),
    Nat.mod_eq_of_lt hk, show (255 : UInt32).toNat = 2 ^ 8 - 1 from rfl,
    Nat.and_two_pow_sub_one_eq_mod, Nat.mod_mod, Nat.shiftRight_eq_div_pow, UInt8.toNat_ofNat']

theorem finalcount_eq {ctx : SHA1 σ} {m : List UInt8} (h : Represents transform init ctx m) :
    finalcount ctx = bigEndian 8 (8 * m.length) := by
  have h0 := h.count0
  have h1 := h.count1
  rw [finalcount, show List.range 8 = [0, 1, 2, 3, 4, 5, 6, 7] from rfl]
  simp only [List.map_cons, List.map_nil, bigEndian, littleEndian, List.reverse_cons,
    List.reverse_nil, List.nil_append, List.cons_append]
  simp only [List.cons.injEq, and_true]
  refine ⟨?_, ?_, ?_, ?_, ?_, ?_, ?_, ?_⟩ <;> rw [toUInt8_shiftRight _ (by decide)] <;>
    apply ofNat_congr <;> simp [h0, h1] <;> omega

/-- Final compresses the framed message, and then one block of zeros more into
the wiped chaining value. -/
theorem final_framed (digestBytes : σ → List UInt8) (wipe : σ → σ) {ctx : SHA1 σ}
    {m : List UInt8} (h : Represents transform init ctx m) :
    ∃ ctx', final transform digestBytes wipe ctx = some ctx' ∧
      ctx'.m_digest = digestBytes ((wholeBlocks 64 (framed 64 0x80 0
        (bigEndian 8 (8 * m.length)) m)).foldl transform init) ∧
      ctx'.m_state = transform (wipe ((wholeBlocks 64 (framed 64 0x80 0
        (bigEndian 8 (8 * m.length)) m)).foldl transform init)) (List.replicate 64 0) := by
  obtain ⟨ctx1, hu1, h1⟩ := update_absorbs ctx m [0x80] [0] h (by decide)
  obtain ⟨ctx2, hloop, h2⟩ := padLoop_zeros h1 rfl
  have hk := missing_eq h1
  rw [List.length_append, List.length_singleton] at hk
  have hz : zeros 64 8 m.length = missing ctx1.m_count0 :=
    zeros_unique (by decide) (by omega) (by omega)
  obtain ⟨ctx3, hu3, h3⟩ := update_absorbs ctx2 _ (finalcount ctx) [] h2
    (by rw [finalcount_eq h, bigEndian_length]; decide)
  rw [List.append_nil, finalcount_eq h, bigEndian_length] at hu3
  replace hu3 : update transform ctx2 (finalcount ctx) 8 = some ctx3 := by
    rw [finalcount_eq h]
    exact hu3
  have hstate : ctx3.m_state = (wholeBlocks 64 (framed 64 0x80 0
      (bigEndian 8 (8 * m.length)) m)).foldl transform init := by
    rw [h3.state, framed, bigEndian_length, hz, finalcount_eq h]
    simp only [List.append_assoc, List.cons_append, List.nil_append]
  replace hu1 : update transform ctx [0x80, 0] 1 = some ctx1 := hu1
  refine ⟨⟨transform (wipe ctx3.m_state) (List.replicate 64 0), 0, 0, List.replicate 64 0,
    digestBytes ctx3.m_state⟩, ?_, by rw [← hstate], by rw [← hstate]⟩
  rw [final]
  simp only [hu1, hloop, hu3, Option.bind_eq_bind, Option.bind_some]

end Ashe.Sha1Framing
