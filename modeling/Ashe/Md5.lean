import Ashe.Buffers
import Ashe.ByteWords
import Ashe.HashInput

namespace Ashe.Md5

open Buffers ByteWords HashInput

section Compression

def F1 (x y z : UInt32) : UInt32 := z ^^^ (x &&& (y ^^^ z))

def F2 (x y z : UInt32) : UInt32 := F1 z x y

def F3 (x y z : UInt32) : UInt32 := x ^^^ y ^^^ z

def F4 (x y z : UInt32) : UInt32 := y ^^^ (x ||| ~~~z)

def steps : List (Nat × UInt32 × UInt32) := [
  (0, 0xd76aa478, 7), (1, 0xe8c7b756, 12), (2, 0x242070db, 17), (3, 0xc1bdceee, 22),
  (4, 0xf57c0faf, 7), (5, 0x4787c62a, 12), (6, 0xa8304613, 17), (7, 0xfd469501, 22),
  (8, 0x698098d8, 7), (9, 0x8b44f7af, 12), (10, 0xffff5bb1, 17), (11, 0x895cd7be, 22),
  (12, 0x6b901122, 7), (13, 0xfd987193, 12), (14, 0xa679438e, 17), (15, 0x49b40821, 22),
  (1, 0xf61e2562, 5), (6, 0xc040b340, 9), (11, 0x265e5a51, 14), (0, 0xe9b6c7aa, 20),
  (5, 0xd62f105d, 5), (10, 0x02441453, 9), (15, 0xd8a1e681, 14), (4, 0xe7d3fbc8, 20),
  (9, 0x21e1cde6, 5), (14, 0xc33707d6, 9), (3, 0xf4d50d87, 14), (8, 0x455a14ed, 20),
  (13, 0xa9e3e905, 5), (2, 0xfcefa3f8, 9), (7, 0x676f02d9, 14), (12, 0x8d2a4c8a, 20),
  (5, 0xfffa3942, 4), (8, 0x8771f681, 11), (11, 0x6d9d6122, 16), (14, 0xfde5380c, 23),
  (1, 0xa4beea44, 4), (4, 0x4bdecfa9, 11), (7, 0xf6bb4b60, 16), (10, 0xbebfbc70, 23),
  (13, 0x289b7ec6, 4), (0, 0xeaa127fa, 11), (3, 0xd4ef3085, 16), (6, 0x04881d05, 23),
  (9, 0xd9d4d039, 4), (12, 0xe6db99e5, 11), (15, 0x1fa27cf8, 16), (2, 0xc4ac5665, 23),
  (0, 0xf4292244, 6), (7, 0x432aff97, 10), (14, 0xab9423a7, 15), (5, 0xfc93a039, 21),
  (12, 0x655b59c3, 6), (3, 0x8f0ccc92, 10), (10, 0xffeff47d, 15), (1, 0x85845dd1, 21),
  (8, 0x6fa87e4f, 6), (15, 0xfe2ce6e0, 10), (6, 0xa3014314, 15), (13, 0x4e0811a1, 21),
  (4, 0xf7537e82, 6), (11, 0xbd3af235, 10), (2, 0x2ad7d2bb, 15), (9, 0xeb86d391, 21)]

structure Words where
  a : UInt32
  b : UInt32
  c : UInt32
  d : UInt32
  deriving DecidableEq

def md5step (f : UInt32 → UInt32 → UInt32 → UInt32) (w x y z input s : UInt32) : UInt32 :=
  let w := w + (f x y z + input)
  ((w <<< s) ||| (w >>> (32 - s))) + x

/-- One of the sixty-four steps. The words change their names from one step to
the next, so that the last one comes first. -/
def step (input : List UInt32) (s : Words) (i : Nat) : Words :=
  let (k, constant, shift) := steps.getD i (0, 0, 0)
  let f := if i < 16 then F1 else if i < 32 then F2 else if i < 48 then F3 else F4
  ⟨s.d, md5step f s.a s.b s.c s.d (input.getD k 0 + constant) shift, s.b, s.c⟩

/-- The block is seen as words of a little endian host. -/
def md5Transform (buf : Words) (input : List UInt8) : Words :=
  let s := (List.range 64).foldl (step (littleWords input)) buf
  ⟨buf.a + s.a, buf.b + s.b, buf.c + s.c, buf.d + s.d⟩

def initial : Words := ⟨0x67452301, 0xefcdab89, 0x98badcfe, 0x10325476⟩

def digestBytes (buf : Words) : List UInt8 :=
  [buf.a, buf.b, buf.c, buf.d].flatMap fun (w : UInt32) => littleEndian 4 w.toNat

end Compression

/-- The context, for any kind of chaining value. The array of words is kept as
bytes. -/
structure MD5Context (σ : Type) where
  buf : σ
  bytes0 : UInt32
  bytes1 : UInt32
  input : List UInt8

variable {σ δ : Type} (transform : σ → List UInt8 → σ) (digestBytes : σ → δ)

/-- The host is little endian: byteSwap changes nothing. -/
def md5Init (init : σ) (ctx : MD5Context σ) : MD5Context σ := ⟨init, 0, 0, ctx.input⟩

def chunkLoop (buf : List UInt8) (state : σ) (block : List UInt8) (pos len : Nat) :
    Option (σ × List UInt8 × Nat × Nat) :=
  if len ≥ 64 then do
    let block ← memcpy block 0 buf pos 64
    chunkLoop buf (transform state block) block (pos + 64) (len - 64)
  else some (state, block, pos, len)
termination_by len

def md5Update (ctx : MD5Context σ) (buf : List UInt8) (len : UInt32) : Option (MD5Context σ) :=
  let t := ctx.bytes0
  let bytes0 := t + len
  let bytes1 := if bytes0 < t then ctx.bytes1 + 1 else ctx.bytes1
  let t := 64 - (t &&& 0x3f)
  if t > len then do
    let block ← memcpy ctx.input (64 - t).toNat buf 0 len.toNat
    some ⟨ctx.buf, bytes0, bytes1, block⟩
  else do
    let block ← memcpy ctx.input (64 - t).toNat buf 0 t.toNat
    let (state, block, pos, len) ←
      chunkLoop transform buf (transform ctx.buf block) block t.toNat (len - t).toNat
    let block ← memcpy block 0 buf pos len
    some ⟨state, bytes0, bytes1, block⟩

def lastBlock (ctx : MD5Context σ) : Option (σ × List UInt8) := do
  let count := (ctx.bytes0 &&& 0x3f).toNat
  let block ← store ctx.input count 0x80
  if 56 < count + 1 then
    let block ← copy block (count + 1) (List.replicate (64 - (count + 1)) 0)
    let state := transform ctx.buf block
    let block ← copy block 0 (List.replicate 56 0)
    some (state, block)
  else
    let block ← copy block (count + 1) (List.replicate (56 - (count + 1)) 0)
    some (ctx.buf, block)

/-- The digest. The context is wiped. -/
def md5Final (ctx : MD5Context σ) : Option δ := do
  let (state, block) ← lastBlock transform ctx
  let block ← copy block 56 (littleEndian 4 (ctx.bytes0 <<< 3).toNat)
  let block ← copy block 60 (littleEndian 4 ((ctx.bytes1 <<< 3) ||| (ctx.bytes0 >>> 29)).toNat)
  some (digestBytes (transform state block))

section Api

/-- What the context holds before its first use is not initialised. -/
def md5 (block : List UInt8) : MD5Context Words := md5Init initial ⟨initial, 0, 0, block⟩

def getDataMD5 (block buffer : List UInt8) (buffer_size : Nat) : Option (List UInt8) := do
  let ctx ← updateData (md5Update md5Transform) buffer buffer_size (md5 block) 0
  let md5Sig ← md5Final md5Transform Md5.digestBytes ctx
  some (hexText md5Sig)

def getFileMD5 (block : List UInt8) (file : Option (List UInt8)) : Option (List UInt8) :=
  match file with
  | none => some []
  | some contents => do
    let ctx ← updateFile (md5Update md5Transform) contents (List.replicate 1024 0) (md5 block)
    let md5Sig ← md5Final md5Transform Md5.digestBytes ctx
    some (hexText md5Sig)

end Api

end Ashe.Md5
