import Ashe.Md5Framing
import Ashe.Sha1Framing
import Ashe.Sha256Framing

namespace Ashe.HashFraming

open ByteWords BlockFraming HashInput

variable {α : Type}

/-- The standard blocks of a message, with the bit length in big endian order. -/
def bigBlocks (m : List UInt8) : List (List UInt8) :=
  wholeBlocks 64 (framed 64 0x80 0 (bigEndian 8 (8 * m.length)) m)

def littleBlocks (m : List UInt8) : List (List UInt8) :=
  wholeBlocks 64 (framed 64 0x80 0 (littleEndian 8 (8 * m.length)) m)

def record (given : List α) (block : α) : List α := given ++ [block]

theorem foldl_record (blocks given : List α) : blocks.foldl record given = given ++ blocks := by
  induction blocks generalizing given with
  | nil => rw [List.append_nil]; rfl
  | cons b blocks ih => rw [List.foldl_cons, ih, record, List.append_assoc, List.singleton_append]

section Chunks

variable (chunks : List (List UInt8)) (buffer : List UInt8)

/-- The blocks that update and final compress. The buffer has no value at first. -/
def sha1Blocks : Option (List (List UInt8)) := do
  let ctx ← updateChunks (Sha1.update record) (Sha1.reset [] ⟨[], 0, 0, buffer, []⟩) chunks
  let ctx ← Sha1.final record (fun _ => []) id ctx
  some ctx.m_state

def sha256Blocks : Option (List (List UInt32)) := do
  let ctx ← updateChunks (Sha256.update record) (Sha256.init [] ⟨[], 0, 0, buffer, 0⟩) chunks
  let ctx ← Sha256.final record ctx
  some ctx.state

def md5Blocks : Option (List (List UInt8)) := do
  let ctx ← updateChunks (Md5.md5Update record) (Md5.md5Init [] ⟨[], 0, 0, buffer⟩) chunks
  Md5.md5Final record id ctx

def sha1Digest : Option (List UInt8) := do
  let ctx ← updateChunks (Sha1.update Sha1.transform) (Sha1.sha1 buffer []) chunks
  let ctx ← Sha1.final Sha1.transform Sha1.digestBytes Sha1.wiped ctx
  some (hexText ctx.m_digest)

def sha256Digest : Option (List UInt8) := do
  let ctx ← updateChunks (Sha256.update Sha256.sha256Transform) (Sha256.sha256 buffer) chunks
  let ctx ← Sha256.final Sha256.sha256Transform ctx
  some (hexText (Sha256.digestBytes ctx.state))

def md5Digest : Option (List UInt8) := do
  let ctx ← updateChunks (Md5.md5Update Md5.md5Transform) (Md5.md5 buffer) chunks
  let md5Sig ← Md5.md5Final Md5.md5Transform Md5.digestBytes ctx
  some (hexText md5Sig)

end Chunks

variable {chunks : List (List UInt8)} {buffer m : List UInt8}

section Sha1

open Sha1 Sha1Framing

def sha1Standard (m : List UInt8) : List UInt8 :=
  hexText (Sha1.digestBytes ((bigBlocks m).foldl Sha1.transform initial))

/-- One more block is compressed, after the digest has been taken. -/
theorem sha1Blocks_eq (hb : buffer.length = 64) (hc : ∀ c ∈ chunks, c.length ≤ 10240) :
    sha1Blocks chunks buffer = some (bigBlocks chunks.flatten ++ [List.replicate 64 0]) := by
  have hstart : Represents record [] (Sha1.reset [] ⟨[], 0, 0, buffer, []⟩) [] :=
    reset_represents hb
  obtain ⟨ctx, hu, h⟩ := (update_absorbs.mono (by decide)).chunks hc hstart
  obtain ⟨ctx', hf, -, hstate⟩ := final_framed (fun _ => []) id h
  rw [sha1Blocks, hu]
  simp only [Option.bind_eq_bind, Option.bind_some, hf, hstate, foldl_record, List.nil_append]
  rfl

theorem sha1_final {ctx : SHA1 Words} (h : Represents Sha1.transform initial ctx m) :
    (do
      let ctx ← final Sha1.transform Sha1.digestBytes wiped ctx
      some (hexText ctx.m_digest)) = some (sha1Standard m) := by
  obtain ⟨ctx', hf, hdigest, -⟩ := final_framed Sha1.digestBytes wiped h
  simp only [hf, Option.bind_eq_bind, Option.bind_some, hdigest]
  rfl

theorem sha1_start (hb : buffer.length = 64) :
    Represents Sha1.transform initial (sha1 buffer []) [] := reset_represents hb

theorem sha1Digest_eq (hb : buffer.length = 64) (hc : ∀ c ∈ chunks, c.length ≤ 10240) :
    sha1Digest chunks buffer = some (sha1Standard chunks.flatten) := by
  obtain ⟨ctx, hu, h⟩ := (update_absorbs.mono (by decide)).chunks hc (sha1_start hb)
  rw [sha1Digest, hu]
  exact sha1_final h

theorem getDataSHA1_eq (hb : buffer.length = 64) (data : List UInt8) :
    getDataSHA1 buffer [] data data.length = some (sha1Standard data) := by
  obtain ⟨ctx, hu, h⟩ := (update_absorbs.mono (by decide)).data data (sha1_start hb)
  rw [getDataSHA1, hu]
  exact sha1_final h

theorem getFileSHA1_eq (hb : buffer.length = 64) (contents : List UInt8) :
    getFileSHA1 buffer [] (some contents) = some (sha1Standard contents) := by
  obtain ⟨ctx, hu, h⟩ := (update_absorbs.mono (by decide)).file (List.replicate 1024 0)
    (sha1_start hb)
  rw [getFileSHA1, hu]
  exact sha1_final h

end Sha1

section Sha256

open Sha256 Sha256Framing

def sha256Standard (m : List UInt8) : List UInt8 :=
  hexText (Sha256.digestBytes (((bigBlocks m).map bigWords).foldl sha256Transform H0))

theorem foldl_compress {σ : Type} (transform : σ → List UInt32 → σ) (state : σ)
    (blocks : List (List UInt8)) :
    blocks.foldl (compress transform) state = (blocks.map bigWords).foldl transform state := by
  rw [List.foldl_map]
  rfl

theorem sha256Blocks_eq (hb : buffer.length = 64) (hc : ∀ c ∈ chunks, c.length ≤ 10240) :
    sha256Blocks chunks buffer = some ((bigBlocks chunks.flatten).map bigWords) := by
  have hstart : Represents record [] (Sha256.init [] ⟨[], 0, 0, buffer, 0⟩) [] :=
    init_represents hb
  obtain ⟨ctx, hu, h⟩ := (update_absorbs.mono (by decide)).chunks hc hstart
  obtain ⟨ctx', hf, hstate⟩ := final_framed h
  rw [sha256Blocks, hu]
  simp only [Option.bind_eq_bind, Option.bind_some, hf, hstate, foldl_compress, foldl_record,
    List.nil_append]
  rfl

theorem sha256_final {ctx : SHA256Ctx Words} (h : Represents sha256Transform H0 ctx m) :
    (do
      let ctx ← final sha256Transform ctx
      some (hexText (Sha256.digestBytes ctx.state))) = some (sha256Standard m) := by
  obtain ⟨ctx', hf, hstate⟩ := final_framed h
  simp only [hf, Option.bind_eq_bind, Option.bind_some, hstate, foldl_compress]
  rfl

theorem sha256_start (hb : buffer.length = 64) : Represents sha256Transform H0 (sha256 buffer) [] :=
  init_represents hb

theorem sha256Digest_eq (hb : buffer.length = 64) (hc : ∀ c ∈ chunks, c.length ≤ 10240) :
    sha256Digest chunks buffer = some (sha256Standard chunks.flatten) := by
  obtain ⟨ctx, hu, h⟩ := (update_absorbs.mono (by decide)).chunks hc (sha256_start hb)
  rw [sha256Digest, hu]
  exact sha256_final h

theorem getDataSHA256_eq (hb : buffer.length = 64) (data : List UInt8) :
    getDataSHA256 buffer data data.length = some (sha256Standard data) := by
  obtain ⟨ctx, hu, h⟩ := (update_absorbs.mono (by decide)).data data (sha256_start hb)
  rw [getDataSHA256, hu]
  exact sha256_final h

theorem getFileSHA256_eq (hb : buffer.length = 64) (contents : List UInt8) :
    getFileSHA256 buffer (some contents) = some (sha256Standard contents) := by
  obtain ⟨ctx, hu, h⟩ := (update_absorbs.mono (by decide)).file (List.replicate 1024 0)
    (sha256_start hb)
  rw [getFileSHA256, hu]
  exact sha256_final h

end Sha256

section Md5

open Md5 Md5Framing

def md5Standard (m : List UInt8) : List UInt8 :=
  hexText (Md5.digestBytes ((littleBlocks m).foldl md5Transform initial))

theorem md5Blocks_eq (hb : buffer.length = 64) (hc : ∀ c ∈ chunks, c.length ≤ 10240) :
    md5Blocks chunks buffer = some (littleBlocks chunks.flatten) := by
  have hstart : Represents record [] (md5Init [] ⟨[], 0, 0, buffer⟩) [] := md5Init_represents hb
  obtain ⟨ctx, hu, h⟩ := (md5Update_absorbs.mono (by decide)).chunks hc hstart
  rw [md5Blocks, hu]
  simp only [Option.bind_eq_bind, Option.bind_some, md5Final_framed id h, foldl_record,
    List.nil_append]
  rfl

theorem md5_final {ctx : MD5Context Words} (h : Represents md5Transform initial ctx m) :
    (do
      let md5Sig ← md5Final md5Transform Md5.digestBytes ctx
      some (hexText md5Sig)) = some (md5Standard m) := by
  rw [md5Final_framed Md5.digestBytes h]
  rfl

theorem md5_start (hb : buffer.length = 64) : Represents md5Transform initial (md5 buffer) [] :=
  md5Init_represents hb

theorem md5Digest_eq (hb : buffer.length = 64) (hc : ∀ c ∈ chunks, c.length ≤ 10240) :
    md5Digest chunks buffer = some (md5Standard chunks.flatten) := by
  obtain ⟨ctx, hu, h⟩ := (md5Update_absorbs.mono (by decide)).chunks hc (md5_start hb)
  rw [md5Digest, hu]
  exact md5_final h

theorem getDataMD5_eq (hb : buffer.length = 64) (data : List UInt8) :
    getDataMD5 buffer data data.length = some (md5Standard data) := by
  obtain ⟨ctx, hu, h⟩ := (md5Update_absorbs.mono (by decide)).data data (md5_start hb)
  rw [getDataMD5, hu]
  exact md5_final h

theorem getFileMD5_eq (hb : buffer.length = 64) (contents : List UInt8) :
    getFileMD5 buffer (some contents) = some (md5Standard contents) := by
  obtain ⟨ctx, hu, h⟩ := (md5Update_absorbs.mono (by decide)).file (List.replicate 1024 0)
    (md5_start hb)
  rw [getFileMD5, hu]
  exact md5_final h

end Md5

/-- The blocks of the three hashes are the standard ones for every chunking, and
so are the digests, over chunks, over data in memory and over a file. -/
theorem hash_framing (hm : m.length < 2 ^ 61) (hchunks : chunks.flatten = m)
    (hc : ∀ c ∈ chunks, c.length ≤ 10240) (hb : buffer.length = 64) :
    ofLittleEndian (littleEndian 8 (8 * m.length)) = 8 * m.length ∧
      (sha1Blocks chunks buffer = some (bigBlocks m ++ [List.replicate 64 0]) ∧
        sha256Blocks chunks buffer = some ((bigBlocks m).map bigWords) ∧
        md5Blocks chunks buffer = some (littleBlocks m)) ∧
      (sha1Digest chunks buffer = some (sha1Standard m) ∧
        Sha1.getDataSHA1 buffer [] m m.length = some (sha1Standard m) ∧
        Sha1.getFileSHA1 buffer [] (some m) = some (sha1Standard m)) ∧
      (sha256Digest chunks buffer = some (sha256Standard m) ∧
        Sha256.getDataSHA256 buffer m m.length = some (sha256Standard m) ∧
        Sha256.getFileSHA256 buffer (some m) = some (sha256Standard m)) ∧
      (md5Digest chunks buffer = some (md5Standard m) ∧
        Md5.getDataMD5 buffer m m.length = some (md5Standard m) ∧
        Md5.getFileMD5 buffer (some m) = some (md5Standard m)) := by
  subst hchunks
  refine ⟨ofLittleEndian_littleEndian (by omega), ⟨?_, ?_, ?_⟩, ⟨?_, ?_, ?_⟩, ⟨?_, ?_, ?_⟩, ?_,
    ?_, ?_⟩
  · exact sha1Blocks_eq hb hc
  · exact sha256Blocks_eq hb hc
  · exact md5Blocks_eq hb hc
  · exact sha1Digest_eq hb hc
  · exact getDataSHA1_eq hb _
  · exact getFileSHA1_eq hb _
  · exact sha256Digest_eq hb hc
  · exact getDataSHA256_eq hb _
  · exact getFileSHA256_eq hb _
  · exact md5Digest_eq hb hc
  · exact getDataMD5_eq hb _
  · exact getFileMD5_eq hb _

theorem hash_framing_abc :
    sha256Blocks [[97], [98, 99]] (List.replicate 64 7) =
        some ((bigBlocks [97, 98, 99]).map bigWords) ∧
      md5Blocks [[97], [98, 99]] (List.replicate 64 7) = some (littleBlocks [97, 98, 99]) :=
  (hash_framing (by decide) (by decide) (by decide) (by decide)).2.1.2

/-- The empty message has one standard block. -/
theorem sha1_compresses_more :
    sha1Blocks [] (List.replicate 64 7) ≠ some (bigBlocks []) := by
  rw [sha1Blocks_eq (by decide) (by decide)]
  intro h
  have hlen := congrArg List.length (Option.some.inj h)
  rw [List.length_append, List.flatten_nil] at hlen
  exact absurd hlen (by simp)

end Ashe.HashFraming
