import Ashe.Sha512Framing

namespace Ashe.Sha512Length

open Buffers ByteWords BlockFraming HashInput HashFraming Sha512 Sha512Framing

variable {σ δ : Type} {compress : σ → List UInt8 → σ} {start : σ}

def lengthField (ctx : SHA512 σ) : List UInt8 :=
  List.replicate 12 (0 : UInt8) ++ bigEndian 4 ((ctx.m_tot_len + ctx.m_len) <<< 3).toNat

theorem lengthField_length (ctx : SHA512 σ) : (lengthField ctx).length = 16 := by
  rw [lengthField, List.length_append, List.length_replicate, bigEndian_length]

/-- The blocks that final compresses are as many as the framed bytes fill. -/
theorem block_nb_toNat {m_len : UInt32} {k : Nat} (hl : m_len.toNat = k) (hk : k < 128) :
    (if UInt32.ofNat (SHA384_512_BLOCK_SIZE - 17) < m_len % UInt32.ofNat SHA384_512_BLOCK_SIZE
      then 2 else 1 : UInt32).toNat * 128 = k + 1 + zeros 128 16 k + 16 := by
  have hmod : (m_len % UInt32.ofNat SHA384_512_BLOCK_SIZE).toNat = k := by
    rw [UInt32.toNat_mod, hl, blockSize_toNat, Nat.mod_eq_of_lt hk]
  have h111 : (UInt32.ofNat (SHA384_512_BLOCK_SIZE - 17)).toNat = 111 := rfl
  simp only [zeros, UInt32.lt_iff_toNat_lt, hmod, h111]
  split
  next h => rw [show (2 : UInt32).toNat = 2 from rfl]; omega
  next h => rw [show (1 : UInt32).toNat = 1 from rfl]; omega

theorem lengthField_framed (ctx : SHA512 σ) {t : List UInt8} {n : Nat}
    (hn : n = zeros 128 16 t.length) : framed 128 0x80 0 (lengthField ctx) t =
      t ++ 0x80 :: List.replicate (n + 12) (0 : UInt8) ++
        bigEndian 4 ((ctx.m_tot_len + ctx.m_len) <<< 3).toNat := by
  rw [framed, lengthField_length, ← hn, lengthField, ← List.replicate_append_replicate]
  simp only [List.append_assoc, List.cons_append]

/-- The three writes of final: zeros up to the end of the last block, the mark behind the
message, and the last four bytes of the field. -/
theorem frame_writes {b t field : List UInt8} (hb : Filled 256 b t) {n : Nat}
    (hfield : field.length = 4) (hroom : t.length + 1 + n + 16 ≤ 256) :
    ∃ after, (do
      let block ← copy b t.length (List.replicate (n + 17) 0)
      let block ← store block t.length 0x80
      copy block (t.length + 1 + (n + 12)) field) =
        some (t ++ 0x80 :: List.replicate (n + 12) (0 : UInt8) ++ field ++ after) := by
  obtain ⟨b1, hcopy, -, after, rfl⟩ := hb.copy (List.replicate (n + 17) (0 : UInt8))
    (by rw [List.length_replicate]; omega)
  have hzeros : List.replicate (n + 17) (0 : UInt8) =
      0 :: (List.replicate (n + 12) (0 : UInt8) ++ List.replicate 4 0) := by
    rw [List.replicate_append_replicate, ← List.replicate_succ]
  rw [hzeros, List.append_assoc, List.cons_append] at hcopy
  have hstore := store_middle t
    (List.replicate (n + 12) (0 : UInt8) ++ List.replicate 4 0 ++ after) 0 0x80 rfl
  have hlast : copy (t ++ (0x80 : UInt8) :: List.replicate (n + 12) (0 : UInt8) ++
      (List.replicate 4 0 ++ after)) (t.length + 1 + (n + 12)) field =
        some (t ++ (0x80 : UInt8) :: List.replicate (n + 12) (0 : UInt8) ++ (field ++ after)) := by
    refine copy_middle _ (List.replicate 4 0) after ?_ ?_
    · simp only [List.length_append, List.length_cons, List.length_replicate]
      omega
    · rw [hfield, List.length_replicate]
  simp only [List.append_assoc, List.cons_append] at hstore hcopy hlast
  refine ⟨after, ?_⟩
  rw [hzeros, hcopy]
  simp only [Option.bind_eq_bind, Option.bind_some, hstore, hlast, List.append_assoc,
    List.cons_append]

/-- Final compresses what is in the buffer, framed with the length field. -/
theorem final_blocks (compress : σ → List UInt8 → σ) (digestBytes : σ → δ) {ctx : SHA512 σ}
    {t : List UInt8} (hb : Filled 256 ctx.m_block t) (hl : ctx.m_len.toNat = t.length)
    (ht : t.length < 128) : final compress digestBytes ctx = some (digestBytes
      ((wholeBlocks 128 (framed 128 0x80 0 (lengthField ctx) t)).foldl compress ctx.m_h)) := by
  obtain ⟨n, hn⟩ : ∃ n, n = zeros 128 16 t.length := ⟨_, rfl⟩
  let block_nb : UInt32 := if UInt32.ofNat (SHA384_512_BLOCK_SIZE - 17) <
    ctx.m_len % UInt32.ofNat SHA384_512_BLOCK_SIZE then 2 else 1
  have hnb : block_nb.toNat * 128 = t.length + 1 + n + 16 := hn ▸ block_nb_toNat hl ht
  have hnle : n < 128 := by
    rw [hn, zeros]
    omega
  have hpm : (block_nb <<< 7).toNat = t.length + 1 + n + 16 := by
    rw [toNat_shiftLeft_seven (by omega), hnb]
  have hroom : ((block_nb <<< 7) - ctx.m_len).toNat = n + 17 := by
    rw [toNat_sub_small (by omega)]
    omega
  have hplace : ((block_nb <<< 7) - 4).toNat = t.length + 1 + (n + 12) := by
    have h4 : (4 : UInt32).toNat = 4 := rfl
    rw [toNat_sub_small (by omega), hpm, h4]
    omega
  have hframed := lengthField_framed ctx hn
  obtain ⟨after, hwrites⟩ := frame_writes (n := n) hb
    (bigEndian_length 4 ((ctx.m_tot_len + ctx.m_len) <<< 3).toNat) (by rw [← hnb]; omega)
  rw [← hframed] at hwrites
  have hcount : (wholeBlocks 128 (framed 128 0x80 0 (lengthField ctx) t)).length =
      block_nb.toNat := by
    rw [wholeBlocks_length (by decide), hframed]
    simp only [List.length_append, List.length_cons, List.length_replicate, bigEndian_length]
    omega
  have hblocks := transform_blocks compress (framed 128 0x80 0 (lengthField ctx) t ++ after) 0
    (wholeBlocks 128 (framed 128 0x80 0 (lengthField ctx) t)) ctx.m_h (i := 0)
    (by rw [hcount]; omega) (length_of_mem_wholeBlocks (by decide))
    ⟨[], after, by rw [flatten_framed (by decide)]; rfl, rfl⟩
  rw [hcount] at hblocks
  have hfinal : final compress digestBytes ctx = ((do
      let block ← copy ctx.m_block ctx.m_len.toNat
        (List.replicate ((block_nb <<< 7) - ctx.m_len).toNat 0)
      let block ← store block ctx.m_len.toNat 0x80
      copy block ((block_nb <<< 7) - 4).toNat
        (bigEndian 4 ((ctx.m_tot_len + ctx.m_len) <<< 3).toNat)) >>= fun block =>
      transform compress block 0 ctx.m_h 0 block_nb.toNat >>= fun m_h =>
      some (digestBytes m_h)) := by
    simp only [Option.bind_eq_bind, Option.bind_assoc]
    rfl
  rw [hfinal, hroom, hplace, hl, hwrites]
  simp only [Option.bind_eq_bind, Option.bind_some, hblocks]

/-- The digest is that of the message framed with the length field of the code. -/
theorem final_framed (digestBytes : σ → δ) {ctx : SHA512 σ} {m : List UInt8}
    (h : Represents compress start ctx m) : final compress digestBytes ctx = some (digestBytes
      ((wholeBlocks 128 (framed 128 0x80 0 (lengthField ctx) m)).foldl compress start)) := by
  have hplace := remainder_length 128 m
  rw [final_blocks compress digestBytes h.block (h.len.trans hplace.symm)
    (remainder_length_lt (by decide) m), wholeBlocks_framed_rest (m := m) (by decide),
    List.foldl_append, ← h.m_h]

/-- The bit length is stored in full just when it fits in 32 bits. -/
theorem lengthField_eq {ctx : SHA512 σ} {m : List UInt8} (h : Represents compress start ctx m)
    (hm : m.length < 2 ^ 29) : lengthField ctx = bigEndian 16 (8 * m.length) := by
  have htot := h.tot
  have hlen := h.len
  have hbits : ((ctx.m_tot_len + ctx.m_len) <<< 3).toNat = 8 * m.length := by
    rw [UInt32.toNat_shiftLeft, Nat.shiftLeft_eq, toNat_add_small (by omega),
      show (3 : UInt32).toNat % 32 = 3 from rfl, htot, hlen]
    omega
  rw [lengthField, hbits]
  exact (bigEndian_four_iff 12 _ _ (by omega)).mpr ⟨by omega, rfl⟩

/-- The standard blocks of a message, with the bit length in sixteen bytes. -/
def standardBlocks (m : List UInt8) : List (List UInt8) :=
  wholeBlocks 128 (framed 128 0x80 0 (bigEndian 16 (8 * m.length)) m)

/-- The blocks that update and final compress. The buffer has no value at first. -/
def sha512Blocks (chunks : List (List UInt8)) (buffer : List UInt8) :
    Option (List (List UInt8)) := do
  let ctx ← updateChunks (update record) (Sha512.init [] ⟨0, 0, buffer, []⟩) chunks
  final record id ctx

def sha512Standard (m : List UInt8) : List UInt8 :=
  hexText (Sha512.digestBytes ((standardBlocks m).foldl Sha512.compress initial))

theorem update_place {ctx ctx' : SHA512 σ} {message : List UInt8} {len : UInt32}
    (h : update compress ctx message len = some ctx') :
    ctx'.m_block.length = ctx.m_block.length ∧ ctx'.m_len.toNat < 128 := by
  rw [update] at h
  obtain ⟨block, hcopy, h⟩ := Option.bind_eq_some_iff.mp h
  have hblock := length_of_memcpy hcopy
  split at h
  next hshort =>
    obtain rfl := Option.some.inj h
    exact ⟨hblock, UInt32.lt_iff_toNat_lt.mp hshort⟩
  next =>
    obtain ⟨h1, -, h⟩ := Option.bind_eq_some_iff.mp h
    obtain ⟨h2, -, h⟩ := Option.bind_eq_some_iff.mp h
    obtain ⟨block', hcopy', h⟩ := Option.bind_eq_some_iff.mp h
    obtain rfl := Option.some.inj h
    refine ⟨(length_of_memcpy hcopy').trans hblock, ?_⟩
    dsimp only
    rw [UInt32.toNat_mod, blockSize_toNat]
    exact Nat.mod_lt _ (by decide)

theorem updateChunks_place {chunks : List (List UInt8)} {ctx ctx' : SHA512 σ}
    (hlen : ctx.m_len.toNat < 128) (h : updateChunks (update compress) ctx chunks = some ctx') :
    ctx'.m_block.length = ctx.m_block.length ∧ ctx'.m_len.toNat < 128 := by
  induction chunks generalizing ctx with
  | nil =>
      obtain rfl := Option.some.inj h
      exact ⟨rfl, hlen⟩
  | cons c chunks ih =>
      obtain ⟨ctx1, hu, hrest⟩ := Option.bind_eq_some_iff.mp h
      obtain ⟨hblock1, hlen1⟩ := update_place hu
      obtain ⟨hblock2, hlen2⟩ := ih hlen1 hrest
      exact ⟨hblock2.trans hblock1, hlen2⟩

variable {chunks : List (List UInt8)} {buffer m : List UInt8}

theorem sha512Blocks_eq (hb : buffer.length = 256) (hm : chunks.flatten.length < 2 ^ 29) :
    sha512Blocks chunks buffer = some (standardBlocks chunks.flatten) := by
  have hc : ∀ c ∈ chunks, c.length ≤ 2 ^ 29 := by
    intro c hmem
    have := (List.sublist_flatten_of_mem hmem).length_le
    omega
  have hstart : Represents record [] (Sha512.init [] ⟨0, 0, buffer, []⟩) [] := init_represents hb
  obtain ⟨ctx, hu, h⟩ := update_absorbs.chunks hc hstart
  rw [sha512Blocks, hu]
  simp only [Option.bind_eq_bind, Option.bind_some]
  rw [final_framed id h, lengthField_eq h hm, foldl_record]
  rfl

theorem getDataSHA512_eq (hb : buffer.length = 256) (hm : m.length < 2 ^ 29) :
    getDataSHA512 buffer m m.length = some (sha512Standard m) := by
  have hstart : Represents Sha512.compress initial (sha512 buffer) [] := init_represents hb
  obtain ⟨ctx, hu, h⟩ := update_absorbs _ _ m [] hstart (by omega)
  rw [List.append_nil] at hu
  rw [getDataSHA512, hu]
  simp only [Option.bind_eq_bind, Option.bind_some]
  rw [final_framed _ h, lengthField_eq h hm]
  rfl

/-- A longer message never gets its bit length: the upper bytes of the field stay
zero. -/
theorem sha512Blocks_ne (hb : buffer.length = 256) (hlt : m.length < 2 ^ 64)
    (hm : 2 ^ 29 ≤ m.length) : sha512Blocks chunks buffer ≠ some (standardBlocks m) := by
  intro h
  obtain ⟨ctx, hu, h⟩ := Option.bind_eq_some_iff.mp h
  obtain ⟨hblock, hlen⟩ := updateChunks_place (show (0 : UInt32).toNat < 128 by decide) hu
  have htake : (ctx.m_block.take ctx.m_len.toNat).length = ctx.m_len.toNat := by
    rw [List.length_take, hblock]
    exact Nat.min_eq_left (by show _ ≤ buffer.length; omega)
  rw [final_blocks record id ⟨hblock.trans hb, List.take_prefix ..⟩ htake.symm
    (by rw [htake]; exact hlen), foldl_record] at h
  have hfield := framed_field_eq (by decide)
    (by rw [lengthField_length, bigEndian_length]) (Option.some.inj h)
  have := ((bigEndian_four_iff 12 _ _ (by omega)).mp hfield).1
  omega

/-- Blocks and digest are the standard ones exactly for the messages whose bit
length fits in 32 bits. -/
theorem sha512_framing_iff (hm : m.length < 2 ^ 64) (hchunks : chunks.flatten = m)
    (hb : buffer.length = 256) :
    (sha512Blocks chunks buffer = some (standardBlocks m) ∧
      getDataSHA512 buffer m m.length = some (sha512Standard m)) ↔ m.length < 2 ^ 29 := by
  constructor
  · rintro ⟨h, -⟩
    by_contra hlong
    exact sha512Blocks_ne hb hm (Nat.not_lt.mp hlong) h
  · intro hshort
    refine ⟨?_, getDataSHA512_eq hb hshort⟩
    rw [← hchunks]
    exact sha512Blocks_eq hb (by rwa [hchunks])

theorem sha512_framing_iff_abc :
    (sha512Blocks [[97], [98, 99]] (List.replicate 256 7) = some (standardBlocks [97, 98, 99]) ∧
      getDataSHA512 (List.replicate 256 7) [97, 98, 99] [(97 : UInt8), 98, 99].length =
        some (sha512Standard [97, 98, 99])) ↔ [(97 : UInt8), 98, 99].length < 2 ^ 29 :=
  sha512_framing_iff (by decide) (by decide) List.length_replicate

/-- Half a gigabyte of zeros is the shortest message whose length does not fit. -/
theorem sha512_length_lost :
    sha512Blocks [List.replicate (2 ^ 29) 0] (List.replicate 256 7) ≠
      some (standardBlocks (List.replicate (2 ^ 29) 0)) := by
  have hlen : (List.replicate (2 ^ 29) (0 : UInt8)).length = 2 ^ 29 := List.length_replicate
  exact sha512Blocks_ne List.length_replicate (by omega) (by omega)

end Ashe.Sha512Length
