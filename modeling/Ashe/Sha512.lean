import Ashe.Buffers
import Ashe.ByteWords
import Ashe.HashInput

namespace Ashe.Sha512

open Buffers ByteWords HashInput

def SHA384_512_BLOCK_SIZE : Nat := 128

section Compression

def sha512K : List UInt64 := [
  0x428a2f98d728ae22, 0x7137449123ef65cd, 0xb5c0fbcfec4d3b2f, 0xe9b5dba58189dbbc,
  0x3956c25bf348b538, 0x59f111f1b605d019, 0x923f82a4af194f9b, 0xab1c5ed5da6d8118,
  0xd807aa98a3030242, 0x12835b0145706fbe, 0x243185be4ee4b28c, 0x550c7dc3d5ffb4e2,
  0x72be5d74f27b896f, 0x80deb1fe3b1696b1, 0x9bdc06a725c71235, 0xc19bf174cf692694,
  0xe49b69c19ef14ad2, 0xefbe4786384f25e3, 0x0fc19dc68b8cd5b5, 0x240ca1cc77ac9c65,
  0x2de92c6f592b0275, 0x4a7484aa6ea6e483, 0x5cb0a9dcbd41fbd4, 0x76f988da831153b5,
  0x983e5152ee66dfab, 0xa831c66d2db43210, 0xb00327c898fb213f, 0xbf597fc7beef0ee4,
  0xc6e00bf33da88fc2, 0xd5a79147930aa725, 0x06ca6351e003826f, 0x142929670a0e6e70,
  0x27b70a8546d22ffc, 0x2e1b21385c26c926, 0x4d2c6dfc5ac42aed, 0x53380d139d95b3df,
  0x650a73548baf63de, 0x766a0abb3c77b2a8, 0x81c2c92e47edaee6, 0x92722c851482353b,
  0xa2bfe8a14cf10364, 0xa81a664bbc423001, 0xc24b8b70d0f89791, 0xc76c51a30654be30,
  0xd192e819d6ef5218, 0xd69906245565a910, 0xf40e35855771202a, 0x106aa07032bbd1b8,
  0x19a4c116b8d2d0c8, 0x1e376c085141ab53, 0x2748774cdf8eeb99, 0x34b0bcb5e19b48a8,
  0x391c0cb3c5c95a63, 0x4ed8aa4ae3418acb, 0x5b9cca4f7763e373, 0x682e6ff3d6b2b8a3,
  0x748f82ee5defb2fc, 0x78a5636f43172f60, 0x84c87814a1f0ab72, 0x8cc702081a6439ec,
  0x90befffa23631e28, 0xa4506cebde82bde9, 0xbef9a3f7b2c67915, 0xc67178f2e372532b,
  0xca273eceea26619c, 0xd186b8c721c0c207, 0xeada7dd6cde0eb1e, 0xf57d4f7fee6ed178,
  0x06f067aa72176fba, 0x0a637dc5a2c898a6, 0x113f9804bef90dae, 0x1b710b35131c471b,
  0x28db77f523047d84, 0x32caab7b40c72493, 0x3c9ebe0a15c9bebc, 0x431d67c49c100d4c,
  0x4cc5d4becb3e42b6, 0x597f299cfc657e2a, 0x5fcb6fab3ad6faec, 0x6c44198c4a475817]

def rotr (x n : UInt64) : UInt64 := (x >>> n) ||| (x <<< (64 - n))

def ch (x y z : UInt64) : UInt64 := (x &&& y) ^^^ (~~~x &&& z)

def maj (x y z : UInt64) : UInt64 := (x &&& y) ^^^ (x &&& z) ^^^ (y &&& z)

def F1 (x : UInt64) : UInt64 := rotr x 28 ^^^ rotr x 34 ^^^ rotr x 39

def F2 (x : UInt64) : UInt64 := rotr x 14 ^^^ rotr x 18 ^^^ rotr x 41

def F3 (x : UInt64) : UInt64 := rotr x 1 ^^^ rotr x 8 ^^^ (x >>> 7)

def F4 (x : UInt64) : UInt64 := rotr x 19 ^^^ rotr x 61 ^^^ (x >>> 6)

/-- The words of a block, the highest byte of each word first (SHA2_PACK64). -/
def pack64 : List UInt8 → List UInt64
  | s0 :: s1 :: s2 :: s3 :: s4 :: s5 :: s6 :: s7 :: bs =>
    (s7.toUInt64 ||| (s6.toUInt64 <<< 8) ||| (s5.toUInt64 <<< 16) ||| (s4.toUInt64 <<< 24) |||
      (s3.toUInt64 <<< 32) ||| (s2.toUInt64 <<< 40) ||| (s1.toUInt64 <<< 48) |||
      (s0.toUInt64 <<< 56)) :: pack64 bs
  | _ => []

structure Words where
  h0 : UInt64
  h1 : UInt64
  h2 : UInt64
  h3 : UInt64
  h4 : UInt64
  h5 : UInt64
  h6 : UInt64
  h7 : UInt64
  deriving DecidableEq

def schedule (block : List UInt8) : List UInt64 :=
  ((List.range 80).drop 16).foldl (fun w j => w ++ [F4 (w.getD (j - 2) 0) + w.getD (j - 7) 0 +
    F3 (w.getD (j - 15) 0) + w.getD (j - 16) 0]) (pack64 block)

def round (w : List UInt64) (wv : Words) (j : Nat) : Words :=
  let t1 := wv.h7 + F2 wv.h4 + ch wv.h4 wv.h5 wv.h6 + sha512K.getD j 0 + w.getD j 0
  let t2 := F1 wv.h0 + maj wv.h0 wv.h1 wv.h2
  ⟨t1 + t2, wv.h0, wv.h1, wv.h2, wv.h3 + t1, wv.h4, wv.h5, wv.h6⟩

def compress (m_h : Words) (sub_block : List UInt8) : Words :=
  let wv := (List.range 80).foldl (round (schedule sub_block)) m_h
  ⟨m_h.h0 + wv.h0, m_h.h1 + wv.h1, m_h.h2 + wv.h2, m_h.h3 + wv.h3, m_h.h4 + wv.h4,
    m_h.h5 + wv.h5, m_h.h6 + wv.h6, m_h.h7 + wv.h7⟩

def initial : Words :=
  ⟨0x6a09e667f3bcc908, 0xbb67ae8584caa73b, 0x3c6ef372fe94f82b, 0xa54ff53a5f1d36f1,
    0x510e527fade682d1, 0x9b05688c2b3e6c1f, 0x1f83d9abfb41bd6b, 0x5be0cd19137e2179⟩

def digestBytes (m_h : Words) : List UInt8 :=
  [m_h.h0, m_h.h1, m_h.h2, m_h.h3, m_h.h4, m_h.h5, m_h.h6, m_h.h7].flatMap fun (x : UInt64) =>
    bigEndian 8 x.toNat

end Compression

/-- The members of the class, for any kind of chaining value. -/
structure SHA512 (σ : Type) where
  m_tot_len : UInt32
  m_len : UInt32
  m_block : List UInt8
  m_h : σ

variable {σ δ : Type} (compress : σ → List UInt8 → σ) (digestBytes : σ → δ)

def init (m_h : σ) (ctx : SHA512 σ) : SHA512 σ :=
  { ctx with m_h := m_h, m_len := 0, m_tot_len := 0 }

/-- The loop of transform over `turns` blocks from block `i` of the message on.
There is no result when the offset of a block leaves the range of int. -/
def transform (message : List UInt8) (pos : Nat) (m_h : σ) (i : Nat) : Nat → Option σ
  | 0 => some m_h
  | turns + 1 =>
    if i * 128 < 2 ^ 31 then do
      let sub_block ← slice message (pos + i * 128) 128
      transform message pos (compress m_h sub_block) (i + 1) turns
    else none

/-- All lengths are of type unsigned int. -/
def update (ctx : SHA512 σ) (message : List UInt8) (len : UInt32) : Option (SHA512 σ) := do
  let tmp_len := UInt32.ofNat SHA384_512_BLOCK_SIZE - ctx.m_len
  let rem_len := if len < tmp_len then len else tmp_len
  let block ← memcpy ctx.m_block ctx.m_len.toNat message 0 rem_len.toNat
  if ctx.m_len + len < UInt32.ofNat SHA384_512_BLOCK_SIZE then
    some { ctx with m_block := block, m_len := ctx.m_len + len }
  else
    let new_len := len - rem_len
    let block_nb := new_len / UInt32.ofNat SHA384_512_BLOCK_SIZE
    let m_h ← transform compress block 0 ctx.m_h 0 1
    let m_h ← transform compress message rem_len.toNat m_h 0 block_nb.toNat
    let rest := new_len % UInt32.ofNat SHA384_512_BLOCK_SIZE
    let block ← memcpy block 0 message (rem_len.toNat + (block_nb <<< 7).toNat) rest.toNat
    some ⟨ctx.m_tot_len + ((block_nb + 1) <<< 7), rest, block, m_h⟩

/-- Four bytes of the length field are written. -/
def final (ctx : SHA512 σ) : Option δ := do
  let block_nb : UInt32 := if UInt32.ofNat (SHA384_512_BLOCK_SIZE - 17) <
    ctx.m_len % UInt32.ofNat SHA384_512_BLOCK_SIZE then 2 else 1
  let len_b := (ctx.m_tot_len + ctx.m_len) <<< 3
  let pm_len := block_nb <<< 7
  let block ← copy ctx.m_block ctx.m_len.toNat (List.replicate (pm_len - ctx.m_len).toNat 0)
  let block ← store block ctx.m_len.toNat 0x80
  let block ← copy block (pm_len - 4).toNat (bigEndian 4 len_b.toNat)
  let m_h ← transform compress block 0 ctx.m_h 0 block_nb.toNat
  some (digestBytes m_h)

section Api

/-- What a constructed object holds before its first use is not initialised. -/
def sha512 (block : List UInt8) : SHA512 Words := init initial ⟨0, 0, block, initial⟩

def getDataSHA512 (block data : List UInt8) (dataSize : Nat) : Option (List UInt8) := do
  -- the size is passed as an unsigned int
  let ctx ← update Sha512.compress (sha512 block) data (UInt32.ofNat dataSize)
  let digest ← final Sha512.compress Sha512.digestBytes ctx
  some (hexText digest)

def getFileSHA512 (block : List UInt8) (file : Option (List UInt8)) : Option (List UInt8) :=
  match file with
  | none => some []
  | some contents => do
    let ctx ← updateFile (update Sha512.compress) contents (List.replicate 1024 0) (sha512 block)
    let digest ← final Sha512.compress Sha512.digestBytes ctx
    some (hexText digest)

end Api

end Ashe.Sha512
